import MailFallback.Folders.Semantics
import MailFallback.Library.ImapSearch
import MailFallback.Library.PyString
import MailFallback.Progress.Semantics

/-! # The search form of the restore page

What a user asks for in the form becomes a `SEARCH` command. Words go into quotes as they are
typed. -/

namespace MailFallback.Criteria

open ImapSearch
open IsoFormat (Date)

/-! ## The criteria -/

def fieldMap : List (String × String) :=
  [("subject", "SUBJECT"), ("from", "FROM"), ("reply_to", "HEADER Reply-To"),
    ("followup_to", "HEADER Followup-To"), ("to", "TO"), ("cc", "CC"), ("bcc", "BCC"),
    ("body", "BODY"), ("text", "TEXT")]

def typeMap : List (String × List String) :=
  [("unseen", ["UNSEEN"]), ("flagged", ["FLAGGED"]), ("unanswered", ["UNANSWERED"]),
    ("deleted", ["DELETED"]), ("undeleted", ["UNDELETED"]),
    ("attachment", ["HEADER", "Content-Type", "multipart/mixed"])]

/-- `_field_criteria` -/
def fieldCriteria (quotedWord field : String) : List String :=
  if ' ' ∈ field.toList then
    [(PyString.partition field ' ').1, (PyString.partition field ' ').2, quotedWord]
  else [field, quotedWord]

/-- `_build_or_group` -/
def buildOrGroup (quotedWord : String) : List String → List String
  -- No caller passes an empty list.
  | [] => []
  | [field] => fieldCriteria quotedWord field
  | [field, field'] => "OR" :: (fieldCriteria quotedWord field ++ fieldCriteria quotedWord field')
  | field :: remaining =>
      "OR" :: (fieldCriteria quotedWord field ++ buildOrGroup quotedWord remaining)

def digitIn (low high : Char) (c : Char) : Bool := low ≤ c && c ≤ high

/-- `%m` of `strptime` and the dash after it. -/
def month? : List Char → Option (ℕ × List Char)
  | c :: '-' :: cs => if digitIn '1' '9' c = true then some (Progress.decimalValue c, cs) else none
  | '1' :: c :: '-' :: cs =>
      if digitIn '0' '2' c = true then some (10 + Progress.decimalValue c, cs) else none
  | '0' :: c :: '-' :: cs =>
      if digitIn '1' '9' c = true then some (Progress.decimalValue c, cs) else none
  | _ => none

/-- `%d`, the first alternative that matches; it must end the text. -/
def day? (cs : List Char) : Option ℕ :=
  match cs with
  | [] => none
  | [c] => if digitIn '1' '9' c = true then some (Progress.decimalValue c) else none
  | [c, d] =>
      if c = '3' ∧ digitIn '0' '1' d = true ∨ digitIn '1' '2' c = true ∧ isDecimal d = true ∨
          (c = '0' ∨ c = ' ') ∧ digitIn '1' '9' d = true then
        some (10 * Progress.decimalValue c + Progress.decimalValue d)
      else none
  | _ => none

/-- `datetime.strptime(iso_date, "%Y-%m-%d")` -/
def strptime (isoDate : String) : Option Date :=
  match isoDate.toList with
  | a :: b :: c :: d :: '-' :: cs =>
      if [a, b, c, d].all isDecimal = true then
        (month? cs).bind fun r => (day? r.2).bind fun day =>
          let year := [a, b, c, d].foldl (fun n c => 10 * n + Progress.decimalValue c) 0
          if h : IsoFormat.ValidDate year r.1 day then some ⟨year, r.1, day, h⟩ else none
      else none
  | _ => none

def months : List String :=
  ["Jan", "Feb", "Mar", "Apr", "May", "Jun", "Jul", "Aug", "Sep", "Oct", "Nov", "Dec"]

/-- `_to_imap_date` -/
def toImapDate (isoDate : String) : Option String :=
  (strptime isoDate).map fun dt =>
    toString dt.day ++ "-" ++ months.getD (dt.month - 1) "" ++ "-" ++ toString dt.year

def imapFields (searchIn : String) : List String :=
  let fields := ((PyString.splitAt searchIn ',').map PyString.strip).filter fun f => f ≠ ""
  let fields := if "text" ∈ fields then ["text"] else fields
  let found := fields.filterMap fun f => fieldMap.lookup f
  if found = [] then ["TEXT"] else found

def wordCriteria (fields : List String) (word : String) : List String :=
  let quoted := "\"" ++ word ++ "\""
  match fields with
  | [field] => fieldCriteria quoted field
  | fields => buildOrGroup quoted fields

def dateCriteria (name isoDate : String) : List String :=
  match if isoDate = "" then none else toImapDate isoDate with
  | some date => [name, date]
  | none => []

/-- `_build_search_criteria` -/
def buildSearchCriteria (query searchIn typeFilter dateSince dateBefore : String) : List String :=
  let criteria := (PyString.split query).flatMap (wordCriteria (imapFields searchIn)) ++
    (typeMap.lookup typeFilter).getD [] ++
    dateCriteria "SINCE" dateSince ++ dateCriteria "BEFORE" dateBefore
  if criteria = [] then ["ALL"] else criteria

/-- `conn.search(None, *criteria)`, which puts a space between its arguments. -/
def searchLine (criteria : List String) : String := PyString.join ' ' criteria

/-! ## What the form asks for -/

def formFields : List (String × Field) :=
  [("subject", .subject), ("from", .from), ("reply_to", .header "Reply-To"),
    ("followup_to", .header "Followup-To"), ("to", .to), ("cc", .cc), ("bcc", .bcc),
    ("body", .body), ("text", .text)]

def formTypes : List (String × Key) :=
  [("unseen", .flag .unseen), ("flagged", .flag .flagged), ("unanswered", .flag .unanswered),
    ("deleted", .flag .deleted), ("undeleted", .flag .undeleted),
    ("attachment", .contains (.header "Content-Type") "multipart/mixed")]

/-- The whole text, unless known fields are named and it is not among them. -/
def searchedFields (searchIn : String) : List Field :=
  let names := (PyString.splitAt searchIn ',').map PyString.strip
  let found := names.filterMap fun name => formFields.lookup name
  if "text" ∈ names ∨ found = [] then [.text] else found

section Wanted

variable {M : Type} (messages : Messages M) (m : M)

/-- Every word is in some field, and type and dates fit. -/
def wanted (query searchIn typeFilter dateSince dateBefore : String) : Bool :=
  (PyString.split query).all (fun word =>
    (searchedFields searchIn).any fun field => messages.contains field word m) &&
  (formTypes.lookup typeFilter).all (Key.selects messages m) &&
  (strptime dateSince).all (fun d => !earlier (messages.date m) d) &&
  (strptime dateBefore).all (fun d => earlier (messages.date m) d)

end Wanted

/-! ## Tokens -/

def wireName : Field → String
  | .subject => "SUBJECT"
  | .from => "FROM"
  | .to => "TO"
  | .cc => "CC"
  | .bcc => "BCC"
  | .body => "BODY"
  | .text => "TEXT"
  | .header name => "HEADER " ++ name

def fieldTokens (word : String) : Field → List Token
  | .header name => [.word "HEADER", .word name, .quoted word]
  | field => [.word (wireName field), .quoted word]

/-- A field that the form knows. -/
def Known (field : Field) : Prop := field ∈ formFields.map Prod.snd

def tokenText (t : Token) : String := String.ofList t.chars

theorem tokenText_word (w : String) : tokenText (.word w) = w := by
  rw [tokenText, Token.chars, String.ofList_toList]

theorem tokenText_quoted (w : String) : tokenText (.quoted w) = "\"" ++ w ++ "\"" := by
  apply String.toList_injective
  simp [tokenText, Token.chars, String.toList_append]

variable {field : Field} {word : String} {fields : List Field}

theorem cases_known {P : Field → Prop} (h : Known field) (hsubject : P .subject) (hfrom : P .from)
    (hreply : P (.header "Reply-To")) (hfollowup : P (.header "Followup-To")) (hto : P .to)
    (hcc : P .cc) (hbcc : P .bcc) (hbody : P .body) (htext : P .text) : P field := by
  simp only [Known, formFields, List.map_cons, List.map_nil, List.mem_cons, List.not_mem_nil,
    or_false] at h
  rcases h with rfl | rfl | rfl | rfl | rfl | rfl | rfl | rfl | rfl
  · exact hsubject
  · exact hfrom
  · exact hreply
  · exact hfollowup
  · exact hto
  · exact hcc
  · exact hbcc
  · exact hbody
  · exact htext

/-- What stands unquoted in a command, dates apart. -/
def bareWords : List String :=
  ["ALL", "OR", "SINCE", "BEFORE", "HEADER", "SUBJECT", "FROM", "Reply-To", "Followup-To", "TO",
    "CC", "BCC", "BODY", "TEXT", "UNSEEN", "FLAGGED", "UNANSWERED", "DELETED", "UNDELETED",
    "Content-Type", "multipart/mixed"]

theorem plain_bareWord {w : String} (h : w ∈ bareWords) : (Token.word w).Plain := by
  have hwords : ∀ w ∈ bareWords, (decide (w ≠ "") && w.toList.all isWordChar) = true := by
    decide +kernel
  have hw := hwords w h
  rw [Bool.and_eq_true, decide_eq_true_eq, List.all_eq_true] at hw
  exact hw

theorem fieldCriteria_plain {quotedWord name : String} (h : name ∈ bareWords) :
    fieldCriteria quotedWord name = [name, quotedWord] := by
  have hspace : ' ' ∉ name.toList := fun hmem => absurd ((plain_bareWord h).2 ' ' hmem) (by decide)
  rw [fieldCriteria, if_neg hspace]

variable (word) in
theorem fieldCriteria_wireName (h : Known field) :
    fieldCriteria ("\"" ++ word ++ "\"") (wireName field) =
      (fieldTokens word field).map tokenText := by
  refine cases_known (P := fun field => fieldCriteria ("\"" ++ word ++ "\"") (wireName field) =
    (fieldTokens word field).map tokenText) h ?_ ?_ ?_ ?_ ?_ ?_ ?_ ?_ ?_ <;>
    simp only [wireName, fieldTokens, List.map_cons, List.map_nil, tokenText_word,
      tokenText_quoted]
  · exact fieldCriteria_plain (by simp [bareWords])
  · exact fieldCriteria_plain (by simp [bareWords])
  · rfl
  · rfl
  · exact fieldCriteria_plain (by simp [bareWords])
  · exact fieldCriteria_plain (by simp [bareWords])
  · exact fieldCriteria_plain (by simp [bareWords])
  · exact fieldCriteria_plain (by simp [bareWords])
  · exact fieldCriteria_plain (by simp [bareWords])

variable (word) in
theorem written_fieldTokens (h : Known field) :
    Written (.contains field word) (fieldTokens word field) := by
  refine cases_known (P := fun field => Written (.contains field word) (fieldTokens word field)) h
    ?_ ?_ ?_ ?_ ?_ ?_ ?_ ?_ ?_
  · exact .contains (.quoted word) (by decide)
  · exact .contains (.quoted word) (by decide)
  · exact .header (.word "Reply-To") (.quoted word)
  · exact .header (.word "Followup-To") (.quoted word)
  · exact .contains (.quoted word) (by decide)
  · exact .contains (.quoted word) (by decide)
  · exact .contains (.quoted word) (by decide)
  · exact .contains (.quoted word) (by decide)
  · exact .contains (.quoted word) (by decide)

theorem plain_fieldTokens (h : Known field) (hword : Quotable word) :
    ∀ t ∈ fieldTokens word field, t.Plain := by
  have hquoted : (Token.quoted word).Plain ∧ ∀ t ∈ ([] : List Token), t.Plain := ⟨hword, by simp⟩
  refine cases_known (P := fun field => ∀ t ∈ fieldTokens word field, t.Plain) h
    ?_ ?_ ?_ ?_ ?_ ?_ ?_ ?_ ?_ <;>
    simp only [fieldTokens, wireName, List.forall_mem_cons] <;>
    refine ⟨plain_bareWord (by simp [bareWords]), ?_⟩
  · exact hquoted
  · exact hquoted
  · exact ⟨plain_bareWord (by simp [bareWords]), hquoted⟩
  · exact ⟨plain_bareWord (by simp [bareWords]), hquoted⟩
  · exact hquoted
  · exact hquoted
  · exact hquoted
  · exact hquoted
  · exact hquoted

/-! ## Words -/

/-- The fields of a word, as operands of nested disjunctions. -/
def orKey (word : String) : List Field → Key
  | [] => .all
  | [field] => .contains field word
  | field :: remaining => .or (.contains field word) (orKey word remaining)

def orTokens (word : String) : List Field → List Token
  | [] => [.word "ALL"]
  | [field] => fieldTokens word field
  | field :: remaining => .word "OR" :: (fieldTokens word field ++ orTokens word remaining)

theorem buildOrGroup_wireNames (hne : fields ≠ []) (h : ∀ field ∈ fields, Known field) :
    buildOrGroup ("\"" ++ word ++ "\"") (fields.map wireName) =
      (orTokens word fields).map tokenText := by
  induction fields with
  | nil => exact absurd rfl hne
  | cons field remaining ih =>
      have hfield := fieldCriteria_wireName word (h field List.mem_cons_self)
      have hknown : ∀ f ∈ remaining, Known f := fun f hf => h f (List.mem_cons_of_mem field hf)
      cases remaining with
      | nil => simpa [buildOrGroup, orTokens] using hfield
      | cons field' remaining =>
          have hrest := ih (by simp) hknown
          cases remaining with
          | nil =>
              have hfield' := fieldCriteria_wireName word (hknown field' (by simp))
              simp [buildOrGroup, orTokens, hfield, hfield', tokenText_word]
          | cons field'' remaining =>
              simp only [List.map_cons] at hrest
              simp [buildOrGroup, orTokens, hfield, hrest, tokenText_word]

theorem wordCriteria_wireNames (hne : fields ≠ []) (h : ∀ field ∈ fields, Known field) :
    wordCriteria (fields.map wireName) word = (orTokens word fields).map tokenText := by
  cases fields with
  | nil => exact absurd rfl hne
  | cons field remaining =>
      cases remaining with
      | nil => exact fieldCriteria_wireName word (h field List.mem_cons_self)
      | cons field' remaining => exact buildOrGroup_wireNames (by simp) h

theorem written_orTokens (h : ∀ field ∈ fields, Known field) :
    Written (orKey word fields) (orTokens word fields) := by
  induction fields with
  | nil => exact .all
  | cons field remaining ih =>
      have hfield := written_fieldTokens word (h field List.mem_cons_self)
      cases remaining with
      | nil => exact hfield
      | cons field' remaining =>
          exact .or hfield (ih fun f hf => h f (List.mem_cons_of_mem field hf))

theorem plain_orTokens (h : ∀ field ∈ fields, Known field) (hword : Quotable word) :
    ∀ t ∈ orTokens word fields, t.Plain := by
  induction fields with
  | nil =>
      intro t ht
      obtain rfl := List.mem_singleton.mp ht
      exact plain_bareWord (by simp [bareWords])
  | cons field remaining ih =>
      have hfield := plain_fieldTokens (h field List.mem_cons_self) hword
      cases remaining with
      | nil => exact hfield
      | cons field' remaining =>
          have hrest := ih fun f hf => h f (List.mem_cons_of_mem field hf)
          intro t ht
          rw [orTokens, List.mem_cons, List.mem_append] at ht
          · rcases ht with rfl | ht | ht
            · exact plain_bareWord (by simp [bareWords])
            · exact hfield t ht
            · exact hrest t ht
          · simp

theorem selects_orKey {M : Type} (messages : Messages M) (m : M) (hne : fields ≠ []) :
    (orKey word fields).selects messages m =
      fields.any fun field => messages.contains field word m := by
  induction fields with
  | nil => exact absurd rfl hne
  | cons field remaining ih =>
      cases remaining with
      | nil => simp [orKey, Key.selects]
      | cons field' remaining =>
          have hor : orKey word (field :: field' :: remaining) =
              .or (.contains field word) (orKey word (field' :: remaining)) := rfl
          rw [hor, Key.selects, Key.selects, ih (by simp)]
          rfl

/-! ## The fields of the form -/

theorem lookup_map {α β : Type} (f : α → β) (table : List (String × α)) (name : String) :
    (table.map fun p => (p.1, f p.2)).lookup name = (table.lookup name).map f := by
  induction table with
  | nil => rfl
  | cons p table ih =>
      obtain ⟨key, a⟩ := p
      rw [List.map_cons, List.lookup_cons, List.lookup_cons, ih]
      cases name == key <;> rfl

theorem fieldMap_eq : fieldMap = formFields.map fun p => (p.1, wireName p.2) := by
  simp [fieldMap, formFields, wireName]

theorem lookup_fieldMap (name : String) :
    fieldMap.lookup name = (formFields.lookup name).map wireName := by
  rw [fieldMap_eq, lookup_map]

theorem known_of_lookup {name : String} (h : formFields.lookup name = some field) :
    Known field := by
  obtain ⟨key, hkey⟩ := List.lookup_eq_some_iff.mp h |>.imp fun _ h => h
  obtain ⟨rest, hrows, -⟩ := hkey
  rw [Known, hrows]
  simp

theorem imapFields_eq (searchIn : String) :
    imapFields searchIn = (searchedFields searchIn).map wireName := by
  unfold imapFields searchedFields
  dsimp only
  generalize (PyString.splitAt searchIn ',').map PyString.strip = names
  have hfound : (names.filter fun f => decide (f ≠ "")).filterMap (fun f => fieldMap.lookup f) =
      (names.filterMap fun name => formFields.lookup name).map wireName := by
    rw [List.filterMap_filter, List.map_filterMap]
    refine List.filterMap_congr fun name _ => ?_
    rw [lookup_fieldMap]
    by_cases hname : name = ""
    · subst hname
      rfl
    · simp [hname]
  have htext : "text" ∈ (names.filter fun f => decide (f ≠ "")) ↔ "text" ∈ names := by
    simp
  by_cases h : "text" ∈ names
  · have hform : "text" ∈ names ∨
        (names.filterMap fun name => formFields.lookup name) = [] := .inl h
    rw [if_pos (htext.mpr h), if_pos hform]
    rfl
  · rw [if_neg (fun hmem => h (htext.mp hmem)), hfound]
    by_cases hnone : (names.filterMap fun name => formFields.lookup name) = []
    · have hform : "text" ∈ names ∨
          (names.filterMap fun name => formFields.lookup name) = [] := .inr hnone
      rw [if_pos hform, hnone]
      rfl
    · rw [if_neg (by simpa using hnone), if_neg (by simp [h, hnone])]

theorem searchedFields_ne_nil (searchIn : String) : searchedFields searchIn ≠ [] := by
  unfold searchedFields
  dsimp only
  split
  · simp
  · rename_i h
    exact fun hnil => h (.inr hnil)

theorem known_searchedFields (searchIn : String) :
    ∀ field ∈ searchedFields searchIn, Known field := by
  intro field hfield
  unfold searchedFields at hfield
  dsimp only at hfield
  split at hfield
  · obtain rfl := List.mem_singleton.mp hfield
    simp [Known, formFields]
  · obtain ⟨name, -, hname⟩ := List.mem_filterMap.mp hfield
    exact known_of_lookup hname

/-! ## Types and dates -/

def typeParts : List (String × Key × List Token) :=
  [("unseen", .flag .unseen, [.word "UNSEEN"]), ("flagged", .flag .flagged, [.word "FLAGGED"]),
    ("unanswered", .flag .unanswered, [.word "UNANSWERED"]),
    ("deleted", .flag .deleted, [.word "DELETED"]),
    ("undeleted", .flag .undeleted, [.word "UNDELETED"]),
    ("attachment", .contains (.header "Content-Type") "multipart/mixed",
      [.word "HEADER", .word "Content-Type", .word "multipart/mixed"])]

theorem typeMap_eq : typeMap = typeParts.map fun p => (p.1, p.2.2.map tokenText) := by
  simp [typeMap, typeParts, tokenText_word]

theorem formTypes_eq : formTypes = typeParts.map fun p => (p.1, p.2.1) := rfl

theorem typeParts_spec : ∀ p ∈ typeParts, Written p.2.1 p.2.2 ∧ ∀ t ∈ p.2.2, t.Plain := by
  simp only [typeParts, List.forall_mem_cons]
  refine ⟨?_, ?_, ?_, ?_, ?_, ?_, by simp⟩
  · exact ⟨.flag (by decide), plain_bareWord (by simp [bareWords]), by simp⟩
  · exact ⟨.flag (by decide), plain_bareWord (by simp [bareWords]), by simp⟩
  · exact ⟨.flag (by decide), plain_bareWord (by simp [bareWords]), by simp⟩
  · exact ⟨.flag (by decide), plain_bareWord (by simp [bareWords]), by simp⟩
  · exact ⟨.flag (by decide), plain_bareWord (by simp [bareWords]), by simp⟩
  · exact ⟨.header (.word "Content-Type") (.word "multipart/mixed"),
      plain_bareWord (by simp [bareWords]), plain_bareWord (by simp [bareWords]),
      plain_bareWord (by simp [bareWords]), by simp⟩

theorem isWordChar_of_isDigit {c : Char} (h : c.isDigit = true) : isWordChar c = true := by
  have hdigits : ∀ n < 10, isWordChar (Char.ofNat (48 + n)) = true := by decide
  simp only [Char.isDigit, Bool.and_eq_true, decide_eq_true_eq, ge_iff_le, UInt32.le_iff_toNat_le]
    at h
  have hlow : 48 ≤ c.toNat := h.1
  have hhigh : c.toNat ≤ 57 := h.2
  have hc := hdigits (c.toNat - 48) (by omega)
  rwa [show 48 + (c.toNat - 48) = c.toNat by omega, Char.ofNat_toNat] at hc

theorem plain_dateText (d : Date) : (Token.word (dateText d)).Plain := by
  have hnames : ∀ name ∈ "" :: monthNames, name.toList.all isWordChar = true := by decide +kernel
  have hname : (monthNames.getD (d.month - 1) "").toList.all isWordChar = true := by
    refine hnames _ ?_
    rw [List.getD_eq_getElem?_getD]
    cases h : monthNames[d.month - 1]? with
    | none => exact List.mem_cons_self
    | some name => exact List.mem_cons_of_mem _ (List.mem_of_getElem? h)
  have hdigits : ∀ n : ℕ, ∀ c ∈ (toString n).toList, isWordChar c = true := by
    intro n c hc
    rw [Nat.toString_eq_ofList_toDigits, String.toList_ofList] at hc
    exact isWordChar_of_isDigit (Nat.isDigit_of_mem_toDigits (by decide) (by decide) hc)
  have hdash : ∀ c ∈ "-".toList, isWordChar c = true := by
    have hatom : isWordChar '-' = true := by decide
    simpa using hatom
  refine ⟨?_, ?_⟩
  · intro h
    have := congrArg String.toList h
    simp [dateText, String.toList_append] at this
  · intro c hc
    simp only [dateText, String.toList_append, List.mem_append] at hc
    rcases hc with (((hc | hc) | hc) | hc) | hc
    · exact hdigits _ c hc
    · exact hdash c hc
    · exact List.all_eq_true.mp hname c hc
    · exact hdash c hc
    · exact hdigits _ c hc

def dateParts (key : Date → Key) (name isoDate : String) : List (Key × List Token) :=
  ((strptime isoDate).map fun d => (key d, [.word name, .word (dateText d)])).toList

theorem dateCriteria_eq (key : Date → Key) (name isoDate : String) :
    dateCriteria name isoDate = (tokensOf (dateParts key name isoDate)).map tokenText := by
  unfold dateCriteria dateParts tokensOf
  by_cases hempty : isoDate = ""
  · subst hempty
    rfl
  · rw [if_neg hempty, toImapDate]
    cases strptime isoDate with
    | none => rfl
    | some d => simp [tokenText_word, dateText, months, monthNames]

/-! ## The command -/

/-- The keys of the form with their tokens. -/
def formParts (query searchIn typeFilter dateSince dateBefore : String) :
    List (Key × List Token) :=
  (PyString.split query).map (fun word =>
    (orKey word (searchedFields searchIn), orTokens word (searchedFields searchIn))) ++
  (typeParts.lookup typeFilter).toList ++
  dateParts .since "SINCE" dateSince ++ dateParts .before "BEFORE" dateBefore

section Command

variable {query searchIn typeFilter dateSince dateBefore : String}

theorem criteria_eq : (PyString.split query).flatMap (wordCriteria (imapFields searchIn)) ++
      (typeMap.lookup typeFilter).getD [] ++
      dateCriteria "SINCE" dateSince ++ dateCriteria "BEFORE" dateBefore =
    (tokensOf (formParts query searchIn typeFilter dateSince dateBefore)).map tokenText := by
  have hwords : (PyString.split query).flatMap (wordCriteria (imapFields searchIn)) =
      (tokensOf ((PyString.split query).map fun word => (orKey word (searchedFields searchIn),
        orTokens word (searchedFields searchIn)))).map tokenText := by
    rw [tokensOf, List.flatMap_map, List.map_flatMap, imapFields_eq]
    exact congrArg (List.flatMap · _) (funext fun word =>
      wordCriteria_wireNames (searchedFields_ne_nil searchIn) (known_searchedFields searchIn))
  have htype : (typeMap.lookup typeFilter).getD [] =
      (tokensOf (typeParts.lookup typeFilter).toList).map tokenText := by
    rw [typeMap_eq, lookup_map (fun p : Key × List Token => p.2.map tokenText)]
    cases typeParts.lookup typeFilter <;> simp [tokensOf]
  rw [hwords, htype, dateCriteria_eq .since, dateCriteria_eq .before]
  simp [formParts, tokensOf, List.flatMap_append, List.map_append]

theorem mem_typeParts_of_lookup {p : Key × List Token}
    (h : typeParts.lookup typeFilter = some p) : Written p.1 p.2 ∧ ∀ t ∈ p.2, t.Plain := by
  obtain ⟨before, after, hrows, -⟩ := List.lookup_eq_some_iff.mp h
  exact typeParts_spec (typeFilter, p) (by rw [hrows]; simp)

theorem written_formParts (hsince : ∀ d, strptime dateSince = some d → 1000 ≤ d.year)
    (hbefore : ∀ d, strptime dateBefore = some d → 1000 ≤ d.year) :
    ∀ p ∈ formParts query searchIn typeFilter dateSince dateBefore, Written p.1 p.2 := by
  intro p hp
  simp only [formParts, List.mem_append, List.mem_map, Option.mem_toList, dateParts,
    Option.map_eq_some_iff] at hp
  rcases hp with ((hp | hp) | hp) | hp
  · obtain ⟨word, -, rfl⟩ := hp
    exact written_orTokens (known_searchedFields searchIn)
  · exact (mem_typeParts_of_lookup hp).1
  · obtain ⟨d, hd, rfl⟩ := hp
    exact .since (t := .word (dateText d)) (date?_dateText (hsince d hd))
  · obtain ⟨d, hd, rfl⟩ := hp
    exact .before (t := .word (dateText d)) (date?_dateText (hbefore d hd))

theorem plain_formParts (hwords : ∀ word ∈ PyString.split query, Quotable word) :
    ∀ t ∈ tokensOf (formParts query searchIn typeFilter dateSince dateBefore), t.Plain := by
  intro t ht
  obtain ⟨p, hp, ht⟩ := List.mem_flatMap.mp ht
  simp only [formParts, List.mem_append, List.mem_map, Option.mem_toList, dateParts,
    Option.map_eq_some_iff] at hp
  rcases hp with ((hp | hp) | hp) | hp
  · obtain ⟨word, hword, rfl⟩ := hp
    exact plain_orTokens (known_searchedFields searchIn) (hwords word hword) t ht
  · exact (mem_typeParts_of_lookup hp).2 t ht
  · obtain ⟨d, -, rfl⟩ := hp
    simp only [List.mem_cons, List.not_mem_nil, or_false] at ht
    rcases ht with rfl | rfl
    · exact plain_bareWord (by simp [bareWords])
    · exact plain_dateText d
  · obtain ⟨d, -, rfl⟩ := hp
    simp only [List.mem_cons, List.not_mem_nil, or_false] at ht
    rcases ht with rfl | rfl
    · exact plain_bareWord (by simp [bareWords])
    · exact plain_dateText d

theorem selected_formParts {M : Type} (messages : Messages M) (m : M) :
    selected messages m
        ((formParts query searchIn typeFilter dateSince dateBefore).map Prod.fst) =
      wanted messages m query searchIn typeFilter dateSince dateBefore := by
  have hwords : ((PyString.split query).map fun word =>
      (orKey word (searchedFields searchIn)).selects messages m) =
      (PyString.split query).map fun word =>
        (searchedFields searchIn).any fun field => messages.contains field word m :=
    List.map_congr_left fun word _ => selects_orKey messages m (searchedFields_ne_nil searchIn)
  have htype : (typeParts.lookup typeFilter).toList.all (fun p => p.1.selects messages m) =
      (formTypes.lookup typeFilter).all (Key.selects messages m) := by
    rw [formTypes_eq, lookup_map (fun p : Key × List Token => p.1)]
    cases typeParts.lookup typeFilter <;> simp
  have hdate : ∀ (key : Date → Key) (name isoDate : String),
      (dateParts key name isoDate).all (fun p => p.1.selects messages m) =
        (strptime isoDate).all fun d => (key d).selects messages m := by
    intro key name isoDate
    unfold dateParts
    cases strptime isoDate <;> simp
  have hall : ((PyString.split query).map fun word => (orKey word (searchedFields searchIn),
      orTokens word (searchedFields searchIn))).all (fun p => p.1.selects messages m) =
      (PyString.split query).all fun word =>
        (searchedFields searchIn).any fun field => messages.contains field word m := by
    rw [List.all_map]
    exact congrArg (List.all _) (funext fun word =>
      selects_orKey messages m (searchedFields_ne_nil searchIn))
  unfold selected wanted formParts
  rw [List.all_map, List.all_append, List.all_append, List.all_append]
  exact congrArg₂ and (congrArg₂ and (congrArg₂ and hall htype) (hdate .since "SINCE" dateSince))
    (hdate .before "BEFORE" dateBefore)

theorem searchLine_tokenText (ts : List Token) :
    searchLine (ts.map tokenText) = String.ofList (lineOf ts) := by
  have hchars : (ts.map tokenText).map String.toList = ts.map Token.chars := by
    rw [List.map_map]
    exact List.map_congr_left fun t _ => String.toList_ofList
  rw [searchLine, PyString.join, hchars]
  rfl

theorem buildSearchCriteria_eq (hne : formParts query searchIn typeFilter dateSince dateBefore ≠ [])
    (hwritten : ∀ p ∈ formParts query searchIn typeFilter dateSince dateBefore,
      Written p.1 p.2) :
    buildSearchCriteria query searchIn typeFilter dateSince dateBefore =
      (tokensOf (formParts query searchIn typeFilter dateSince dateBefore)).map tokenText := by
  unfold buildSearchCriteria
  rw [criteria_eq, if_neg]
  intro hnil
  obtain ⟨p, hp⟩ := List.exists_mem_of_ne_nil _ hne
  have hpos := (hwritten p hp).length_pos
  have hempty : p.2 = [] := List.flatMap_eq_nil_iff.mp (List.map_eq_nil_iff.mp hnil) p hp
  rw [hempty] at hpos
  exact absurd hpos (by simp)

/-- A server reads from the command the messages that the form asks for, whatever fields, type and
dates are chosen, as long as the words can stand between quotes and years have four digits. -/
theorem search_criteria_mean (hwords : ∀ word ∈ PyString.split query, Quotable word)
    (hsince : ∀ d, strptime dateSince = some d → 1000 ≤ d.year)
    (hbefore : ∀ d, strptime dateBefore = some d → 1000 ≤ d.year) :
    ∃ keys, readSearch (searchLine
        (buildSearchCriteria query searchIn typeFilter dateSince dateBefore)) = some keys ∧
      ∀ {M : Type} (messages : Messages M) (m : M), selected messages m keys =
        wanted messages m query searchIn typeFilter dateSince dateBefore := by
  by_cases hnone : formParts query searchIn typeFilter dateSince dateBefore = []
  · have hall : buildSearchCriteria query searchIn typeFilter dateSince dateBefore =
        (tokensOf [(Key.all, [Token.word "ALL"])]).map tokenText := by
      unfold buildSearchCriteria
      rw [criteria_eq, hnone]
      simp [tokensOf, tokenText_word]
    have hread : readSearch (String.ofList (lineOf (tokensOf [(Key.all, [Token.word "ALL"])]))) =
        some [Key.all] :=
      readSearch_lineOf (by simp) (by simp [Written.all])
        (by simpa [tokensOf] using plain_bareWord (by simp [bareWords]))
    refine ⟨[.all], ?_, fun messages m => ?_⟩
    · rw [hall, searchLine_tokenText, hread]
    · rw [← selected_formParts, hnone]
      rfl
  · have hwritten : ∀ p ∈ formParts query searchIn typeFilter dateSince dateBefore,
        Written p.1 p.2 := written_formParts hsince hbefore
    refine ⟨_, ?_, fun messages m => selected_formParts messages m⟩
    rw [buildSearchCriteria_eq hnone hwritten, searchLine_tokenText]
    exact readSearch_lineOf hnone hwritten (plain_formParts hwords)

end Command

theorem search_criteria_mean_sample : ∃ keys, readSearch (searchLine
      (buildSearchCriteria "invoice june" "subject, from,body" "flagged" "2026-07-06" "")) =
        some keys ∧
      ∀ {M : Type} (messages : Messages M) (m : M), selected messages m keys =
        wanted messages m "invoice june" "subject, from,body" "flagged" "2026-07-06" "" := by
  refine search_criteria_mean ?_ ?_ ?_
  · have hwords : (PyString.split "invoice june").all fun word => word.toList.all fun c =>
        isQuotedChar c && decide (c ≠ '"') && decide (c ≠ '\\') := by decide +kernel
    intro word hword c hc
    have hchar := List.all_eq_true.mp (List.all_eq_true.mp hwords word hword) c hc
    simpa [and_assoc] using hchar
  · have hyear : (strptime "2026-07-06").all fun d => decide (1000 ≤ d.year) := by decide +kernel
    intro d hd
    rw [hd] at hyear
    simpa using hyear
  · have hnone : strptime "" = none := by decide +kernel
    intro d hd
    rw [hnone] at hd
    cases hd

/-- A word with a quote of its own spoils the line. -/
example : readSearch (searchLine (buildSearchCriteria "a\"b" "subject" "all" "" "")) = none := by
  decide +kernel

end MailFallback.Criteria
