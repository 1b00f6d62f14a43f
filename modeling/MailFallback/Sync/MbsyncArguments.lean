import MailFallback.Library.Arguments
import MailFallback.Sync.Mbsyncrc

/-! # What mbsync reads

mbsync splits a line into arguments at white space, with quotes and escapes. `generate_mbsyncrc`
writes values into lines as they are. -/

namespace MailFallback.Mbsyncrc

open Storage PyString Arguments

/-- The argument lists of the lines that start with the keyword. -/
def parsed (keyword text : String) : List (Option (List (List Char))) :=
  ((text.toList.splitOnP isBreak).filter fun line =>
    String.ofList (line.takeWhile fun c => c ≠ ' ') == keyword).map arguments

/-! ## The lines of a keyword -/

def ofKeyword (keyword : String) (ls : List Line) : List Line :=
  ls.filter fun line => line.keyword == keyword

section Keyword

variable {keyword keyword' : String}

theorem ofKeyword_nil : ofKeyword keyword [] = [] := rfl

theorem ofKeyword_append (ls ls' : List Line) :
    ofKeyword keyword (ls ++ ls') = ofKeyword keyword ls ++ ofKeyword keyword ls' :=
  List.filter_append ..

theorem ofKeyword_self (value : String) (ls : List Line) :
    ofKeyword keyword (.directive keyword value :: ls) =
      .directive keyword value :: ofKeyword keyword ls :=
  List.filter_cons_of_pos (by simp [Line.keyword])

theorem ofKeyword_other (h : keyword' ≠ keyword) (value : String) (ls : List Line) :
    ofKeyword keyword (.directive keyword' value :: ls) = ofKeyword keyword ls :=
  List.filter_cons_of_neg (by simpa [Line.keyword] using h)

theorem ofKeyword_blank (h : keyword ≠ "") (ls : List Line) :
    ofKeyword keyword (.blank :: ls) = ofKeyword keyword ls :=
  List.filter_cons_of_neg (by simpa [Line.keyword] using h.symm)

theorem ofKeyword_optional (h : keyword' ≠ keyword) (value : Option String) :
    ofKeyword keyword (optional keyword' value) = [] := by
  cases value with
  | none => rfl
  | some v => exact ofKeyword_other h v []

theorem ofKeyword_optional_self (value : Option String) :
    ofKeyword keyword (optional keyword value) = optional keyword value := by
  cases value with
  | none => rfl
  | some v => exact ofKeyword_self v []

variable (settings : Settings)

theorem ofKeyword_tls (h : "TLSType" ≠ keyword) :
    ofKeyword keyword (if settings.hasTls = true then
      [Line.directive "TLSType" (sanitizeValue settings.tlsType)] else []) = [] := by
  split
  · exact ofKeyword_other h _ []
  · rfl

theorem ofKeyword_authLines (hmechs : "AuthMechs" ≠ keyword) (hcmd : "PassCmd" ≠ keyword)
    (hpass : "Pass" ≠ keyword) : ofKeyword keyword (authLines settings) = [] := by
  unfold authLines
  split
  · rw [ofKeyword_other hmechs, ofKeyword_other hcmd, ofKeyword_nil]
  · rw [ofKeyword_append, ofKeyword_optional hmechs, ofKeyword_optional hpass, List.append_nil]

theorem ofKeyword_pass :
    ofKeyword "Pass" (authLines settings) = if settings.authType = "oauth2" then []
      else optional "Pass" (settings.sanitizedPassword?.map quote) := by
  unfold authLines
  split
  · rw [ofKeyword_other (by decide), ofKeyword_other (by decide), ofKeyword_nil]
  · rw [ofKeyword_append, ofKeyword_optional (by decide), ofKeyword_optional_self,
      List.nil_append]

theorem user_lines :
    ofKeyword "User" (lines settings) = [.directive "User" (sanitizeValue settings.username)] := by
  simp [lines, accountLines, remoteLines, localLines, channelLines, ofKeyword_append,
    ofKeyword_self, ofKeyword_other, ofKeyword_nil, ofKeyword_blank, ofKeyword_optional,
    ofKeyword_tls, ofKeyword_authLines]

theorem pass_lines :
    ofKeyword "Pass" (lines settings) = ofKeyword "Pass" (authLines settings) := by
  simp [lines, accountLines, remoteLines, localLines, channelLines, ofKeyword_append,
    ofKeyword_other, ofKeyword_nil, ofKeyword_blank, ofKeyword_optional, ofKeyword_tls]

theorem path_lines :
    ofKeyword "Path" (lines settings) =
      [.directive "Path" (Posix.rstripSlash (sanitizeValue settings.maildirPath) ++ "/")] := by
  simp [lines, accountLines, remoteLines, localLines, channelLines, ofKeyword_append,
    ofKeyword_self, ofKeyword_other, ofKeyword_nil, ofKeyword_blank, ofKeyword_optional,
    ofKeyword_tls, ofKeyword_authLines]

theorem inbox_lines :
    ofKeyword "Inbox" (lines settings) =
      [.directive "Inbox" (Posix.rstripSlash (sanitizeValue settings.maildirPath) ++ "/INBOX")] := by
  simp [lines, accountLines, remoteLines, localLines, channelLines, ofKeyword_append,
    ofKeyword_self, ofKeyword_other, ofKeyword_nil, ofKeyword_blank, ofKeyword_optional,
    ofKeyword_tls, ofKeyword_authLines]

theorem patterns_lines :
    ofKeyword "Patterns" (lines settings) = [.directive "Patterns" (patterns settings)] := by
  simp [lines, accountLines, remoteLines, localLines, channelLines, ofKeyword_append,
    ofKeyword_self, ofKeyword_other, ofKeyword_nil, ofKeyword_blank, ofKeyword_optional,
    ofKeyword_tls, ofKeyword_authLines]

theorem parsed_generateMbsyncrc (h : keyword ≠ "") :
    parsed keyword (generateMbsyncrc settings) =
      (ofKeyword keyword (lines settings)).map fun line => arguments line.text.toList := by
  have htidy := lines_tidy settings
  have hlast : (String.ofList (([] : List Char).takeWhile fun c => c ≠ ' ') == keyword) = false :=
    beq_false_of_ne h.symm
  -- the text ends with a line feed, behind which there is an empty line
  have hend : ([[]] : List (List Char)).filter (fun line =>
      String.ofList (line.takeWhile fun c => c ≠ ' ') == keyword) = [] :=
    List.filter_cons_of_neg (by rw [hlast]; exact Bool.false_ne_true)
  rw [parsed, generateMbsyncrc, splitOnP_text htidy, List.filter_append, hend, List.append_nil,
    List.filter_map, List.map_map]
  have hfilter : (lines settings).filter ((fun line : List Char =>
      String.ofList (line.takeWhile fun c => c ≠ ' ') == keyword) ∘
        fun line : Line => line.text.toList) = ofKeyword keyword (lines settings) := by
    refine List.filter_congr fun line hline => ?_
    rw [Function.comp_apply, Line.firstWord (htidy line hline)]
  rw [hfilter]
  rfl

end Keyword

/-! ## What comes back -/

theorem arguments_directive {keyword : String} (hne : keyword.toList ≠ [])
    (hplain : ∀ c ∈ keyword.toList, Scan.Plain false c) (value : String) :
    arguments (Line.directive keyword value).text.toList =
      (({ done := [keyword.toList] } : Scan).run value.toList).result := by
  have hword : ({} : Scan).run keyword.toList = { word := some keyword.toList } :=
    Scan.run_plain rfl hplain hne
  rw [arguments, Line.text, String.toList_append, String.toList_append, List.append_assoc,
    Scan.run_append, hword]
  rfl

theorem returned_word_iff {keyword : String} (hne : keyword.toList ≠ [])
    (hplain : ∀ c ∈ keyword.toList, Scan.Plain false c) (value : String) :
    arguments (Line.directive keyword value).text.toList =
        some [keyword.toList, value.toList] ↔
      value.toList ≠ [] ∧ ∀ c ∈ value.toList, Scan.Plain false c := by
  rw [arguments_directive hne hplain]
  exact Scan.result_word_iff rfl rfl rfl

theorem returned_quote_iff {keyword : String} (hne : keyword.toList ≠ [])
    (hplain : ∀ c ∈ keyword.toList, Scan.Plain false c) (value : String) :
    arguments (Line.directive keyword (quote value)).text.toList =
        some [keyword.toList, value.toList] ↔
      ∀ c ∈ value.toList, c ≠ '\\' ∧ c ≠ '"' := by
  have hquote : (quote value).toList = '"' :: (value.toList ++ ['"']) := by
    rw [quote, String.toList_append, String.toList_append]
    rfl
  rw [arguments_directive hne hplain, hquote]
  exact Scan.result_quoted_iff rfl rfl rfl

/-! ## The exclusions -/

/-- `!"name"` -/
def negation (name : List Char) : List Char := '!' :: '"' :: (name ++ ['"'])

/-- What the code puts behind the patterns of the account. -/
def exclusions : List Char :=
  ' ' :: (negation removedContainer.toList ++
    ' ' :: negation (removedContainer ++ "/*").toList)

def excluded : List (List Char) :=
  ['!' :: removedContainer.toList, '!' :: (removedContainer ++ "/*").toList]

theorem run_negation {s : Scan} {name : List Char} (he : s.escaped = false) (hq : s.quoted = false)
    (hname : ∀ c ∈ name, c ≠ '\\' ∧ c ≠ '"') : s.run (negation name) = s.add ('!' :: name) := by
  have hbang : s.step '!' = s.add ['!'] :=
    Scan.step_plain he ⟨by decide, by decide, fun _ => by decide⟩
  have he' : (s.add ['!']).escaped = false := he
  have hq' : (s.add ['!']).quoted = false := hq
  rw [negation, Scan.run_cons, hbang, Scan.run_quotation he' hq' hname]
  simp [Scan.add]

theorem result_negations {s : Scan} (he : s.escaped = false) (hq : s.quoted = false) :
    (s.run (negation removedContainer.toList ++
      ' ' :: negation (removedContainer ++ "/*").toList)).result =
      some (s.done ++ [s.word.getD [] ++ '!' :: removedContainer.toList,
        '!' :: (removedContainer ++ "/*").toList]) := by
  have hfirst : (s.add ('!' :: removedContainer.toList)).escaped = false := he
  have hfirst' : (s.add ('!' :: removedContainer.toList)).quoted = false := hq
  rw [Scan.run_append, run_negation he hq (Scan.unescaped_of_all (by decide)), Scan.run_cons,
    Scan.step_blank hfirst hfirst' (by decide)]
  rw [run_negation (by exact he) (by exact hq) (Scan.unescaped_of_all (by decide)), Scan.result,
    if_neg (by simp [Scan.add, he, hq])]
  simp [Scan.add]

theorem foldl_stepFlags {quoted : Bool} {cs : List Char} (hcs : ∀ c ∈ cs, c ≠ '\\' ∧ c ≠ '"') :
    cs.foldl Scan.stepFlags (quoted, false) = (quoted, false) := by
  induction cs with
  | nil => rfl
  | cons c cs ih =>
      obtain ⟨⟨hback, hquote⟩, hcs⟩ := List.forall_mem_cons.mp hcs
      have hstep : Scan.stepFlags (quoted, false) c = (quoted, false) := by
        simp [Scan.stepFlags, hback, hquote]
      rw [List.foldl_cons, hstep, ih hcs]

/-- A negation has two quotes. -/
theorem foldl_negation {quoted : Bool} {name : List Char}
    (hname : ∀ c ∈ name, c ≠ '\\' ∧ c ≠ '"') :
    (negation name).foldl Scan.stepFlags (quoted, false) = (quoted, false) := by
  have hopen : ['!', '"'].foldl Scan.stepFlags (quoted, false) = (!quoted, false) := by
    cases quoted <;> decide
  have hclose : ['"'].foldl Scan.stepFlags (!quoted, false) = (quoted, false) := by
    cases quoted <;> decide
  have hsplit : negation name = ['!', '"'] ++ (name ++ ['"']) := rfl
  rw [hsplit, List.foldl_append, hopen, List.foldl_append, foldl_stepFlags hname, hclose]

/-- The two negations are the last arguments exactly when neither a quotation nor an escape is
open before them. -/
theorem result_exclusions_iff (s : Scan) :
    (∃ args, (s.run exclusions).result = some (args ++ excluded)) ↔ s.flags = (false, false) := by
  cases hq : s.quoted with
  | true =>
      -- the number of quotes is even: the quotation stays open
      have hopen : ((s.run exclusions).flags).1 = true := by
        have hblank : ∀ escaped, Scan.stepFlags (true, escaped) ' ' = (true, false) := by decide
        rw [Scan.flags_run, Scan.flags, hq, exclusions, List.foldl_cons, hblank, List.foldl_append,
          foldl_negation (Scan.unescaped_of_all (by decide)), List.foldl_cons, hblank,
          foldl_negation (Scan.unescaped_of_all (by decide))]
      rw [Scan.result_of_quoted hopen]
      simp [Scan.flags, hq]
  | false =>
      cases he : s.escaped with
      | true =>
          -- the blank belongs to the argument, which the first negation continues
          have hblank : s.step ' ' = (s.add [' ']).setEscaped false := if_pos he
          have he' : ((s.add [' ']).setEscaped false).escaped = false := rfl
          have hq' : ((s.add [' ']).setEscaped false).quoted = false := hq
          rw [exclusions, Scan.run_cons, hblank, result_negations he' hq']
          simp only [Scan.flags, hq, he, Prod.mk.injEq, Bool.true_eq_false, and_false, iff_false]
          rintro ⟨args, h⟩
          have hlast := List.append_inj_right' (Option.some.inj h) rfl
          have hlen := congrArg List.length (List.cons.inj hlast).1
          simp [Scan.add, Scan.setEscaped] at hlen
          omega
      | false =>
          have hstep := Scan.step_blank (c := ' ') he hq (by decide)
          rw [exclusions, Scan.run_cons, hstep, result_negations (by exact he) (by exact hq)]
          refine ⟨fun _ => by rw [Scan.flags, hq, he], fun _ => ⟨s.done ++ s.word.toList, ?_⟩⟩
          simp [excluded]

/-! ## The values that come back -/

/-- The `Patterns` value of the account. -/
def Settings.patternsValue (settings : Settings) : String :=
  (settings.extra? "patterns").getD "*"

/-- Parsing the file gives the values back, and the exclusions as the last patterns. -/
structure Returned (settings : Settings) : Prop where
  user : parsed "User" (generateMbsyncrc settings) =
    [some ["User".toList, (sanitizeValue settings.username).toList]]
  password : settings.authType ≠ "oauth2" → ∀ password, settings.sanitizedPassword? = some password →
    parsed "Pass" (generateMbsyncrc settings) = [some ["Pass".toList, password.toList]]
  path : parsed "Path" (generateMbsyncrc settings) =
    [some ["Path".toList,
      (Posix.rstripSlash (sanitizeValue settings.maildirPath) ++ "/").toList]]
  inbox : parsed "Inbox" (generateMbsyncrc settings) =
    [some ["Inbox".toList,
      (Posix.rstripSlash (sanitizeValue settings.maildirPath) ++ "/INBOX").toList]]
  patterns : ∃ args, parsed "Patterns" (generateMbsyncrc settings) = [some (args ++ excluded)]

/-- The user name is not empty and it and the path have no white space, quote or backslash; the
password has no quote or backslash; the patterns leave neither a quotation nor an escape open. -/
structure Verbatim (settings : Settings) : Prop where
  user : (sanitizeValue settings.username).toList ≠ [] ∧
    ∀ c ∈ (sanitizeValue settings.username).toList, Scan.Plain false c
  password : settings.authType ≠ "oauth2" → ∀ password, settings.sanitizedPassword? = some password →
    ∀ c ∈ password.toList, c ≠ '\\' ∧ c ≠ '"'
  path : ∀ c ∈ (Posix.rstripSlash (sanitizeValue settings.maildirPath)).toList, Scan.Plain false c
  patterns : isClosed settings.patternsValue.toList = true

section Returned

variable (settings : Settings)

theorem user_returned_iff :
    parsed "User" (generateMbsyncrc settings) =
        [some ["User".toList, (sanitizeValue settings.username).toList]] ↔
      (sanitizeValue settings.username).toList ≠ [] ∧
        ∀ c ∈ (sanitizeValue settings.username).toList, Scan.Plain false c := by
  rw [parsed_generateMbsyncrc settings (by decide), user_lines, List.map_cons, List.map_nil,
    List.singleton_inj]
  exact returned_word_iff (by decide) (Scan.plain_of_all (by decide)) _

theorem password_returned_iff (hauth : settings.authType ≠ "oauth2") {password : String}
    (h : settings.sanitizedPassword? = some password) :
    parsed "Pass" (generateMbsyncrc settings) = [some ["Pass".toList, password.toList]] ↔
      ∀ c ∈ password.toList, c ≠ '\\' ∧ c ≠ '"' := by
  have hline : ofKeyword "Pass" (lines settings) = [.directive "Pass" (quote password)] := by
    rw [pass_lines, ofKeyword_pass, if_neg hauth, h]
    rfl
  rw [parsed_generateMbsyncrc settings (by decide), hline, List.map_cons, List.map_nil,
    List.singleton_inj]
  exact returned_quote_iff (by decide) (Scan.plain_of_all (by decide)) _

/-- A path with a plain ending comes back when it is plain itself. -/
theorem path_returned_iff {keyword ending : String} (hkeyword : keyword ≠ "")
    (hne : keyword.toList ≠ []) (hplain : ∀ c ∈ keyword.toList, Scan.Plain false c)
    (hending : ending.toList ≠ []) (hendings : ∀ c ∈ ending.toList, Scan.Plain false c)
    {path : String}
    (hlines : ofKeyword keyword (lines settings) = [.directive keyword (path ++ ending)]) :
    parsed keyword (generateMbsyncrc settings) = [some [keyword.toList, (path ++ ending).toList]] ↔
      ∀ c ∈ path.toList, Scan.Plain false c := by
  rw [parsed_generateMbsyncrc settings hkeyword, hlines, List.map_cons, List.map_nil,
    List.singleton_inj, returned_word_iff hne hplain, String.toList_append, List.forall_mem_append]
  constructor
  · exact fun h => h.2.1
  · exact fun h => ⟨fun hnil => hending (List.append_eq_nil_iff.mp hnil).2, h, hendings⟩

theorem patterns_returned_iff :
    (∃ args, parsed "Patterns" (generateMbsyncrc settings) = [some (args ++ excluded)]) ↔
      isClosed settings.patternsValue.toList = true := by
  have htext : (patterns settings).toList = settings.patternsValue.toList ++ exclusions := by
    rw [patterns, quote, quote]
    simp only [String.toList_append, List.append_assoc]
    rfl
  have hflags : ((({ done := ["Patterns".toList] } : Scan).run
      settings.patternsValue.toList).flags = (false, false)) ↔
      isClosed settings.patternsValue.toList = true := by
    rw [Scan.flags_run, isClosed, beq_iff_eq]
    rfl
  rw [parsed_generateMbsyncrc settings (by decide), patterns_lines, List.map_cons, List.map_nil,
    arguments_directive (by decide) (Scan.plain_of_all (by decide)), htext, Scan.run_append, ← hflags,
    ← result_exclusions_iff]
  simp only [List.singleton_inj]

/-- The values come back exactly when nothing in them is special to the tokenizer. -/
theorem returned_iff : Returned settings ↔ Verbatim settings := by
  have hpath := path_returned_iff settings (by decide) (by decide)
    (Scan.plain_of_all (by decide)) (by decide) (Scan.plain_of_all (by decide)) (path_lines settings)
  have hinbox := path_returned_iff settings (by decide) (by decide)
    (Scan.plain_of_all (by decide)) (by decide) (Scan.plain_of_all (by decide))
    (inbox_lines settings)
  constructor
  · intro h
    exact ⟨(user_returned_iff settings).mp h.user,
      fun hauth password hp => (password_returned_iff settings hauth hp).mp
        (h.password hauth password hp),
      hpath.mp h.path, (patterns_returned_iff settings).mp h.patterns⟩
  · intro h
    exact ⟨(user_returned_iff settings).mpr h.user,
      fun hauth password hp => (password_returned_iff settings hauth hp).mpr
        (h.password hauth password hp), hpath.mpr h.path, hinbox.mpr h.path,
      (patterns_returned_iff settings).mpr h.patterns⟩

/-- A password with a quote does not come back. -/
theorem quote_not_returned :
    ¬ Returned { sampleSettings .empty with password := some "a\"b" } := by
  intro h
  have hpassword := (password_returned_iff _ (by decide) (by decide)).mp
    (h.password (by decide) "a\"b" (by decide))
  exact (hpassword '"' (by decide)).2 rfl

end Returned

end MailFallback.Mbsyncrc
