import MailFallback.Library.ModifiedUtf7
import MailFallback.Restore.FolderMapping
import MailFallback.Staging.Worker

/-! # Mailbox names on the wire

The worker encodes a name run by run. The runs are the tokens of modified UTF-7, and reading
them gives the name back. -/

namespace MailFallback.Restore

open ModifiedUtf7 PyString Staging

variable {cs run : List Char} {c : Char}

theorem utf16be_eq (c : Char) : utf16be c = (Utf16.units c).flatMap Utf16.bigEndian := by
  unfold utf16be Utf16.units
  split <;> simp [Utf16.bigEndian]

theorem flatMap_utf16be (run : List Char) :
    run.flatMap utf16be = (run.flatMap Utf16.units).flatMap Utf16.bigEndian := by
  induction run with
  | nil => rfl
  | cons c run ih => simp [utf16be_eq, ih]

/-! ## The tokens of the encoder -/

/-- What `_flush` writes. -/
def shift (run : List Char) : List Token :=
  if run = [] then [] else [.run (digits (run.flatMap utf16be))]

/-- What the encoder writes for the characters, `run` being pending. -/
def tokensFrom (run : List Char) : List Char → List Token
  | [] => shift run
  | c :: cs =>
      if printable c = true then
        shift run ++ (if c = '&' then .ampersand else .plain c) :: tokensFrom [] cs
      else tokensFrom (run ++ [c]) cs

theorem shifted_eq (run : List Char) : shifted run = (shift run).flatMap Token.text := by
  by_cases hrun : run = []
  · simp [shifted, shift, hrun]
  · obtain ⟨n, hn⟩ := Base64.encodeChars_eq (run.flatMap utf16be)
    have hstrip := rstrip_append_replicate n (Base64.pad_not_mem_unpadded (run.flatMap utf16be))
    rw [← hn] at hstrip
    simp only [shifted, shift, if_neg hrun, List.isEmpty_iff]
    rw [Base64.encode, hstrip, String.toList_ofList]
    simp [Token.text, digits, ofSlash]

theorem encodeFrom_eq (run cs : List Char) :
    encodeFrom run cs = (tokensFrom run cs).flatMap Token.text := by
  induction cs generalizing run with
  | nil => exact shifted_eq run
  | cons c cs ih =>
      rw [encodeFrom, tokensFrom]
      by_cases hc : ' ' ≤ c ∧ c ≤ '~'
      · have hprint : printable c = true := decide_eq_true hc
        rw [if_pos hc, if_pos hprint, ih, shifted_eq, List.flatMap_append, List.flatMap_cons]
        split <;> simp [Token.text]
      · have hprint : ¬ printable c = true := by simpa [printable] using hc
        rw [if_neg hc, if_neg hprint, ih]

theorem digits_utf16be_ne_nil (h : run ≠ []) : digits (run.flatMap utf16be) ≠ [] := by
  intro hnil
  have hbytes := bytes?_digits (run.flatMap utf16be)
  rw [hnil, flatMap_utf16be] at hbytes
  have hread := Utf16.decode_encode run
  rw [← Option.some.inj hbytes] at hread
  simp [Utf16.units?, Utf16.scalars?] at hread
  exact h hread

theorem wellFormed_shift (run : List Char) : ∀ t ∈ shift run, t.WellFormed := by
  intro t ht
  by_cases hrun : run = []
  · simp [shift, hrun] at ht
  · rw [shift, if_neg hrun, List.mem_singleton] at ht
    subst ht
    exact ⟨digits_utf16be_ne_nil hrun, isSome_digit?_of_mem _⟩

theorem wellFormed_tokensFrom (run cs : List Char) : ∀ t ∈ tokensFrom run cs, t.WellFormed := by
  induction cs generalizing run with
  | nil => exact wellFormed_shift run
  | cons c cs ih =>
      rw [tokensFrom]
      split
      · rw [List.forall_mem_append, List.forall_mem_cons]
        refine ⟨wellFormed_shift run, ?_, ih []⟩
        split
        · trivial
        · exact ⟨‹_›, ‹_›⟩
      · exact ih (run ++ [c])

/-! ## Their meaning -/

theorem value?_run (h : ∀ c ∈ run, printable c = false) :
    (Token.run (digits (run.flatMap utf16be))).value? = some run := by
  have hany : run.any printable = false := by simpa using h
  rw [Token.value?, bytes?_digits, Option.bind_some, flatMap_utf16be, Utf16.decode_encode]
  simp [Option.filter, hany]

theorem meaning_shift (h : ∀ c ∈ run, printable c = false) {ts : List Token}
    (hhead : ts.head?.any Token.isRun = false) :
    meaning (shift run ++ ts) = (meaning ts).map (run ++ ·) := by
  by_cases hrun : run = []
  · simp [shift, hrun]
  · rw [shift, if_neg hrun, List.singleton_append, meaning_cons, value?_run h, hhead]
    simp

theorem meaning_tokensFrom (h : ∀ c ∈ run, printable c = false) :
    meaning (tokensFrom run cs) = some (run ++ cs) := by
  induction cs generalizing run with
  | nil =>
      have hshift : meaning (shift run ++ []) = (meaning []).map (run ++ ·) := meaning_shift h rfl
      simpa [meaning, tokensFrom] using hshift
  | cons c cs ih =>
      rw [tokensFrom]
      have hcs : meaning (tokensFrom [] cs) = some cs := ih (by simp)
      by_cases hc : printable c = true
      · rw [if_pos hc]
        by_cases hamp : c = '&'
        · rw [if_pos hamp, meaning_shift h rfl, meaning_cons]
          simp [Token.isRun, Token.value?, hcs, hamp]
        · rw [if_neg hamp, meaning_shift h rfl, meaning_plain, hcs]
          rfl
      · have hrun : ∀ d ∈ run ++ [c], printable d = false := by
          intro d hd
          rcases List.mem_append.mp hd with hd | hd
          · exact h d hd
          · rw [List.mem_singleton.mp hd]
            simpa using hc
        rw [if_neg hc, ih hrun]
        simp

/-- A written name, as the encoding asks for it. -/
structure WellWritten (name wire : List Char) : Prop where
  printable : ∀ c ∈ wire, ' ' ≤ c ∧ c ≤ '~'
  decodes : decode wire = some name
  /-- A `&` begins a run or is one half of `&-`. -/
  tokens : ∃ ts : List Token, wire = ts.flatMap Token.text ∧
    (∀ c, .plain c ∈ ts → c ≠ '&') ∧
    (∀ b64, .run b64 ∈ ts → b64 ≠ [] ∧ '&' ∉ b64 ∧ '-' ∉ b64 ∧ '/' ∉ b64 ∧ '=' ∉ b64) ∧
    ts.IsChain fun s t => ¬ (s.isRun = true ∧ t.isRun = true)

def HasNonAscii (name : String) : Prop := ∃ c ∈ name.toList, 128 ≤ c.toNat

theorem imapUtf7Encode_of_hasNonAscii {name : String} (h : HasNonAscii name) :
    (imapUtf7Encode name).toList = (tokensFrom [] name.toList).flatMap Token.text := by
  obtain ⟨c, hc, hascii⟩ := h
  have hall : ¬ name.toList.all (fun c => decide (c.toNat < 128)) = true := by
    intro hall
    have hlt := of_decide_eq_true (List.all_eq_true.mp hall c hc)
    omega
  rw [imapUtf7Encode, if_neg hall, String.toList_ofList, encodeFrom_eq]

theorem wellWritten_tokensFrom (name : List Char) :
    WellWritten name ((tokensFrom [] name).flatMap Token.text) := by
  have hwf := wellFormed_tokensFrom [] name
  have hmeaning : meaning (tokensFrom [] name) = some name := meaning_tokensFrom (by simp)
  have hread := read_eq_some_iff.mpr ⟨rfl, hwf⟩
  refine ⟨?_, ?_, _, rfl, ?_, ?_, isChain_of_meaning hmeaning⟩
  · exact fun c hc => of_decide_eq_true (printable_of_read hread c hc)
  · simpa [decode, hread] using hmeaning
  · exact fun c hc => (hwf _ hc).2
  · intro b64 hb
    obtain ⟨hne, hdigits⟩ := hwf _ hb
    have hnot : ∀ d, digit? d = none → d ∉ b64 := by
      intro d hd hmem
      exact absurd (hdigits d hmem) (by simp [hd])
    exact ⟨hne, hnot _ (by decide), hnot _ (by decide), hnot _ (by decide), hnot _ (by decide)⟩

/-- The encoder writes a name that is not ASCII so that the strict reader gives it back, and no
two such names alike. -/
theorem imapUtf7Encode_correct (name : String) (h : HasNonAscii name) :
    WellWritten name.toList (imapUtf7Encode name).toList ∧
      ∀ name', HasNonAscii name' → imapUtf7Encode name' = imapUtf7Encode name → name' = name := by
  have hwritten : ∀ n, HasNonAscii n → WellWritten n.toList (imapUtf7Encode n).toList := by
    intro n hn
    rw [imapUtf7Encode_of_hasNonAscii hn]
    exact wellWritten_tokensFrom n.toList
  refine ⟨hwritten name h, ?_⟩
  intro name' h' heq
  have hdecode := (hwritten name' h').decodes
  rw [heq, (hwritten name h).decodes] at hdecode
  exact String.toList_inj.mp (Option.some.inj hdecode).symm

theorem imapUtf7Encode_correct_mixed : HasNonAscii "a&\x07日😀" ∧
    WellWritten "a&\x07日😀".toList (imapUtf7Encode "a&\x07日😀").toList :=
  have h : HasNonAscii "a&\x07日😀" := ⟨'日', by decide, by decide⟩
  ⟨h, (imapUtf7Encode_correct _ h).1⟩

/-! ## Names under a custom root

The root is typed, the folder comes encoded from the source. -/

def IsAscii (cs : List Char) : Prop := ∀ c ∈ cs, c.toNat < 128

instance (cs : List Char) : Decidable (IsAscii cs) :=
  List.decidableBAll (fun c : Char => c.toNat < 128) cs

theorem not_hasNonAscii_iff {name : String} : ¬ HasNonAscii name ↔ IsAscii name.toList := by
  simp [HasNonAscii, IsAscii]

theorem imapUtf7Encode_of_isAscii {name : String} (h : IsAscii name.toList) :
    imapUtf7Encode name = name :=
  if_pos (List.all_eq_true.mpr fun c hc => decide_eq_true (h c hc))

theorem decode_imapUtf7Encode {name : String} (h : HasNonAscii name) :
    decode (imapUtf7Encode name).toList = some name.toList := by
  rw [imapUtf7Encode_of_hasNonAscii h]
  exact (wellWritten_tokensFrom name.toList).decodes

theorem lt_of_printable (h : printable c = true) : c.toNat < 128 := by
  have hle : c ≤ '~' := (of_decide_eq_true h).2
  have hnat : c.toNat ≤ '~'.toNat := hle
  exact Nat.lt_of_le_of_lt hnat (by decide)

theorem isAscii_of_decode {ds : List Char} (h : decode cs = some ds) : IsAscii cs := by
  obtain ⟨ts, hread, -⟩ := Option.bind_eq_some_iff.mp h
  exact fun c hc => lt_of_printable (printable_of_read hread c hc)

theorem not_refused_of_validateCustomFolder {value : Option String} {field r : String}
    (h : validateCustomFolder value field = .ok r) :
    ∀ c ∈ r.toList, isRefusedInFolder c = false := by
  unfold validateCustomFolder at h
  by_cases hempty : strip (value.getD "") = ""
  · simp [hempty] at h
  · by_cases hlong : customFolderMaxLen < (strip (value.getD "")).toList.length
    · simp only [if_neg hempty, if_pos hlong] at h
      cases h
    · by_cases hrefused : (strip (value.getD "")).toList.any isRefusedInFolder = true
      · simp only [if_neg hempty, if_neg hlong, if_pos hrefused] at h
        cases h
      · simp only [if_neg hempty, if_neg hlong, if_neg hrefused] at h
        split at h
        · cases h
        · obtain rfl := Except.ok.inj h
          simpa using hrefused

/-- Of ASCII, a validated root has printable characters only. -/
theorem printable_of_not_refused (h : isRefusedInFolder c = false) (hascii : c.toNat < 128) :
    printable c = true := by
  have hle : ∀ d e : Char, d ≤ e ↔ d.toNat ≤ e.toNat := fun d e => Iff.rfl
  simp only [isRefusedInFolder, Bool.or_eq_false_iff, decide_eq_false_iff_not] at h
  simp only [printable, hle, decide_eq_true_eq]
  have hspace : ' '.toNat = 32 := rfl
  have htilde : '~'.toNat = 126 := rfl
  omega

/-- The decoded wire name of a folder is the decoded folder below the root. -/
def WireNameDecodes (f r : String) : Prop :=
  decode (imapUtf7Encode (mapFolder f r "/" "_" "")).toList =
    (decode f.toList).map fun d => r.toList ++ '/' :: d

theorem mapFolder_root {f r : String} (h : r ≠ "original") :
    (mapFolder f r "/" "_" "").toList = r.toList ++ '/' :: dropMount f.toList := by
  simp [mapFolder, toTarget_slash, h, dropSrcPrefix]

theorem mapFolder_originalRoot (f : String) :
    (mapFolder f "original" "/" "_" "").toList = dropMount f.toList := by
  simp [mapFolder, toTarget_slash, dropSrcPrefix]

theorem exists_of_looksMounted (h : looksMounted cs = true) :
    ∃ pre, cs = pre ++ '/' :: dropMount cs := by
  obtain ⟨pre, hpre, -⟩ := exists_of_mem_slash (looksMounted_iff.mp h).2
  exact ⟨pre, by rwa [dropMount, if_pos h]⟩

section Folder

variable {d : List Char} (hd : decode cs = some d)
include hd

/-- What is left of an encoded name is one. -/
theorem exists_decode_dropMount : ∃ d', decode (dropMount cs) = some d' ∧
    d'.length ≤ d.length ∧ (d' = d ↔ looksMounted cs = false) := by
  cases hmount : looksMounted cs with
  | false =>
      have hself := dropMount_eq_self_iff.mpr hmount
      exact ⟨d, by rw [hself, hd], Nat.le_refl _, by simp⟩
  | true =>
      obtain ⟨pre, hpre⟩ := exists_of_looksMounted hmount
      rw [hpre, decode_split (by decide) (by decide) (by decide) (by decide)] at hd
      obtain ⟨p, -, hsplit⟩ := Option.bind_eq_some_iff.mp hd
      obtain ⟨d', hd', rfl⟩ := Option.map_eq_some_iff.mp hsplit
      refine ⟨d', hd', by simp; omega, ?_⟩
      constructor
      · intro heq
        have hlen := congrArg List.length heq
        simp at hlen
        omega
      · intro h
        cases h

theorem dropMount_eq_decode_iff : dropMount cs = d ↔ looksMounted cs = false ∧ '&' ∉ cs := by
  cases hmount : looksMounted cs with
  | false =>
      rw [dropMount_eq_self_iff.mpr hmount, eq_comm, decode_self_iff hd]
      simp
  | true =>
      obtain ⟨pre, hpre⟩ := exists_of_looksMounted hmount
      constructor
      · intro heq
        rw [heq] at hpre
        exact absurd hpre (ne_append_decode hd pre)
      · rintro ⟨⟨⟩, -⟩

end Folder

section Root

variable {f r : String} {d : List Char} (hd : decode f.toList = some d)
include hd

/-- The word for no root is taken for none. -/
theorem not_wireNameDecodes_original : ¬ WireNameDecodes f "original" := by
  obtain ⟨d', hd', hlen, -⟩ := exists_decode_dropMount hd
  have hascii := isAscii_of_decode hd'
  rw [← mapFolder_originalRoot] at hascii
  rw [WireNameDecodes, imapUtf7Encode_of_isAscii hascii, mapFolder_originalRoot, hd, hd']
  intro heq
  have hlen' := congrArg List.length (Option.some.inj heq)
  rw [List.length_append, List.length_cons] at hlen'
  omega

/-- Under a root of ASCII the name goes out as it is. -/
theorem wireNameDecodes_ascii (hne : r ≠ "original")
    (hplain : ∀ c ∈ r.toList, printable c = true ∧ c ≠ '&') :
    WireNameDecodes f r ↔ looksMounted f.toList = false := by
  obtain ⟨d', hd', -, heq⟩ := exists_decode_dropMount hd
  have hname := mapFolder_root (f := f) hne
  have hascii : IsAscii (mapFolder f r "/" "_" "").toList := by
    rw [hname]
    intro c hc
    rcases List.mem_append.mp hc with hc | hc
    · exact lt_of_printable (hplain c hc).1
    · rcases List.mem_cons.mp hc with rfl | hc
      · decide
      · exact isAscii_of_decode hd' c hc
  rw [WireNameDecodes, imapUtf7Encode_of_isAscii hascii, hname, hd, Option.map_some,
    decode_split (by decide) (by decide) (by decide) (by decide), decode_plain hplain, hd']
  simp [heq]

/-- Under any other root the folder is encoded again. -/
theorem wireNameDecodes_nonAscii (hne : r ≠ "original") (hr : HasNonAscii r) :
    WireNameDecodes f r ↔ looksMounted f.toList = false ∧ '&' ∉ f.toList := by
  have hname := mapFolder_root (f := f) hne
  have hnon : HasNonAscii (mapFolder f r "/" "_" "") := by
    obtain ⟨c, hc, hge⟩ := hr
    exact ⟨c, by rw [hname]; exact List.mem_append_left _ hc, hge⟩
  rw [WireNameDecodes, decode_imapUtf7Encode hnon, hname, hd, ← dropMount_eq_decode_iff hd]
  simp

end Root

/-- Below a typed root the decoded wire name is the decoded folder exactly if the root is not the
word for none, the folder does not look like a mount, and nothing is encoded twice. -/
theorem wireNameDecodes_iff {f r field : String} {value : Option String}
    (hf : (decode f.toList).isSome = true) (hr : validateCustomFolder value field = .ok r)
    (hroot : HasNonAscii r ∨ '&' ∉ r.toList) :
    WireNameDecodes f r ↔ r ≠ "original" ∧ looksMounted f.toList = false ∧
      (HasNonAscii r → '&' ∉ f.toList) := by
  obtain ⟨d, hd⟩ := Option.isSome_iff_exists.mp hf
  by_cases horiginal : r = "original"
  · subst horiginal
    simp [not_wireNameDecodes_original hd]
  · by_cases hnon : HasNonAscii r
    · rw [wireNameDecodes_nonAscii hd horiginal hnon]
      simp [horiginal, hnon]
    · have hplain : ∀ c ∈ r.toList, printable c = true ∧ c ≠ '&' := by
        intro c hc
        have hascii := not_hasNonAscii_iff.mp hnon c hc
        refine ⟨printable_of_not_refused (not_refused_of_validateCustomFolder hr c hc) hascii, ?_⟩
        rintro rfl
        exact hroot.elim hnon fun hamp => hamp hc
      rw [wireNameDecodes_ascii hd horiginal hplain]
      simp [horiginal, hnon]

/-- `Entwürfe` below `Café` is encoded twice. -/
theorem not_wireNameDecodes : ¬ ∀ f r : String, (decode f.toList).isSome = true →
    validateCustomFolder (some r) "folder_mapping" = .ok r →
    HasNonAscii r ∨ '&' ∉ r.toList → WireNameDecodes f r := by
  intro h
  have hnon : HasNonAscii "Café" := ⟨'é', by decide, by decide⟩
  have hwire := h "Entw&APw-rfe" "Café" (by decide +kernel) (by decide +kernel) (.inl hnon)
  have hd : decode "Entw&APw-rfe".toList = some "Entwürfe".toList := by decide +kernel
  exact absurd ((wireNameDecodes_nonAscii hd (by decide) hnon).mp hwire).2 (by decide)

theorem wireNameDecodes_archive : WireNameDecodes "Entw&APw-rfe" "Archive/2024" :=
  have hascii : IsAscii "Archive/2024".toList := by decide
  (@wireNameDecodes_iff "Entw&APw-rfe" "Archive/2024" "folder_mapping" (some "Archive/2024")
    (by decide +kernel) (by decide +kernel) (.inr (by decide))).mpr
    ⟨by decide, by decide, fun h => absurd h (not_hasNonAscii_iff.mpr hascii)⟩

end MailFallback.Restore
