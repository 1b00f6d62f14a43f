import MailFallback.Library.IsoFormat
import MailFallback.Library.PathLookup
import MailFallback.Library.PathSplit
import MailFallback.Tables

/-! # Where a recovery lies

The directory that `create_recovery` restores into, the maildir that it finds below, and the
directory that `delete_recovery` removes for a recorded path. -/

namespace MailFallback.Recoveries

open Storage Posix

/-! ## The restore root -/

/-- Days since the epoch as year, month and day of the Gregorian calendar. -/
def civil (days : ℕ) : ℕ × ℕ × ℕ :=
  let z := days + 719468
  let era := z / 146097
  let doe := z % 146097
  let yoe := (doe - doe / 1460 + doe / 36524 - doe / 146096) / 365
  let doy := doe - (365 * yoe + yoe / 4 - yoe / 100)
  let mp := (5 * doy + 2) / 153
  let month := if mp < 10 then mp + 3 else mp - 9
  (yoe + era * 400 + (if month ≤ 2 then 1 else 0), month, doy - (153 * mp + 2) / 5 + 1)

/-- `strftime("%Y%m%d%H%M%S")`, for times in microseconds since the epoch. -/
def timestamp (now : Time) : String :=
  let seconds := (now / 1000000).toNat
  let date := civil (seconds / 86400)
  let clock := seconds % 86400
  String.ofList (IsoFormat.digits 4 date.1 ++ IsoFormat.digits 2 date.2.1 ++
    IsoFormat.digits 2 date.2.2 ++ IsoFormat.digits 2 (clock / 3600) ++
    IsoFormat.digits 2 (clock / 60 % 60) ++ IsoFormat.digits 2 (clock % 60))

def offsiteDirname : String := ".offsite-restore"

/-- The last piece of a restore root. -/
def wrapperName (accountId : Id) (now : Time) : String := accountId ++ "-" ++ timestamp now

/-- `_build_restore_root` -/
def buildRestoreRoot (storePath : String) (accountId : Id) (now : Time) : String :=
  storePath ++ "/" ++ offsiteDirname ++ "/" ++ wrapperName accountId now

/-! ## The maildir below it -/

/-- A mail folder by its three subdirectories. -/
def hasTriplet (dirs : List String) : Bool := ["cur", "new", "tmp"].all (dirs.contains ·)

/-- `_resolve_maildir_inside_restore`, for what `isdir` and `os.walk` tell: the directories of the
walk with the names of their subdirectories. `none` when `commonpath` raises. -/
def resolveMaildirInsideRestore (isdir : String → Bool) (walk : List (String × List String))
    (restoreRoot maildirPath : String) (repoPrefix : Option String) : Option String :=
  let candidate := join restoreRoot (PyString.lstrip maildirPath '/')
  if isdir candidate = true then some candidate
  else
    let named := if given repoPrefix = true then
        walk.find? fun d => basename d.1 = repoPrefix.getD ""
      else none
    match named with
    | some d => some d.1
    | none =>
        match (walk.filter fun d => hasTriplet d.2).map fun d => dirname d.1 with
        | [] => some restoreRoot
        | parents => do
            let common ← commonpath parents
            let shared ← commonpath [common, restoreRoot]
            pure (if shared = restoreRoot then common else restoreRoot)

/-! ## What is deleted -/

/-- The loop of `delete_recovery`; each round shortens the path. -/
def climb (accountId : Id) : ℕ → String → String
  | 0, parent => parent
  | n + 1, parent =>
      if parent ≠ "" ∧ parent ≠ "/" ∧ PyString.has parent offsiteDirname = true then
        let head := (split parent).1
        let tail := (split parent).2
        if tail ≠ "" ∧ PyString.startsWith tail (accountId ++ "-") = true ∧
            PyString.has head offsiteDirname = true then parent
        else climb accountId n head
      else parent

/-- The directory that `delete_recovery` removes for a recorded path. -/
def deleteTarget (accountId : Id) (restorePath : String) : String :=
  let parent := climb accountId restorePath.length restorePath
  if parent ≠ "" ∧ PyString.has parent offsiteDirname = true then parent else restorePath

/-! ## From the recorded path to the root -/

variable {base id name path rest s t : String} {now now' : Time} {n : ℕ}

theorem before_isSome {sub l : List Char} : (PyString.before? sub l).isSome = true ↔ sub <:+: l := by
  induction l with
  | nil =>
      unfold PyString.before?
      rw [List.infix_nil]
      split <;> simp_all
  | cons c l ih =>
      unfold PyString.before?
      rw [List.infix_cons_iff]
      split
      · rename_i h
        simp [List.isPrefixOf_iff_prefix.mp h]
      · rename_i h
        rw [List.isPrefixOf_iff_prefix] at h
        simp [h, ih]

theorem has_iff {sub : String} : PyString.has s sub = true ↔ sub.toList <:+: s.toList :=
  before_isSome

theorem has_offsite : PyString.has (s ++ offsiteDirname ++ t) offsiteDirname = true := by
  rw [has_iff, String.toList_append, String.toList_append]
  exact List.infix_append ..

/-- The recorded path is the root or leads below it, by pieces that do not begin as the root's own
last piece does. -/
def Below (id root path : String) : Prop :=
  path = root ∨ ∃ rest, path = root ++ "/" ++ rest ∧
    ∀ q ∈ pieces rest, PyString.startsWith q (id ++ "-") = false

/-- What makes a string the root of a recovery of the account. -/
structure IsRoot (id root : String) : Prop where
  shape : ∃ base name, root = base ++ "/" ++ offsiteDirname ++ "/" ++ name ∧ '/' ∉ name.toList ∧
    name ≠ "" ∧ PyString.startsWith name (id ++ "-") = true

theorem IsRoot.rstripSlash {root : String} (h : IsRoot id root) : rstripSlash root = root := by
  obtain ⟨base, name, rfl, hslash, hne, -⟩ := h.shape
  have hnil : name.toList ≠ [] := by simpa using hne
  apply rstripSlash_of_last (c := name.toList.getLast hnil)
  · rw [String.toList_append, List.getLast?_append_of_ne_nil _ hnil, List.getLast?_eq_getLast_of_ne_nil]
  · exact fun h => hslash (h ▸ List.getLast_mem hnil)

theorem IsRoot.ne {root : String} (h : IsRoot id root) : root ≠ "" ∧ root ≠ "/" := by
  obtain ⟨base, name, rfl, -, hne, -⟩ := h.shape
  constructor
  · intro hempty
    have hlength := congrArg String.length hempty
    simp at hlength
  · intro hslash
    have hlength := congrArg String.length hslash
    have hone : "/".length = 1 := by decide
    simp only [String.length_append, hone] at hlength
    omega

theorem IsRoot.has {root : String} (h : IsRoot id root) (t : String) :
    PyString.has (root ++ t) offsiteDirname = true := by
  obtain ⟨base, name, rfl, -, -, -⟩ := h.shape
  have happ : base ++ "/" ++ offsiteDirname ++ "/" ++ name ++ t =
      base ++ "/" ++ offsiteDirname ++ ("/" ++ name ++ t) := by
    simp only [String.append_assoc]
  rw [happ]
  exact has_offsite

theorem IsRoot.components_ne {root : String} (h : IsRoot id root) : components root ≠ [] := by
  obtain ⟨base, name, rfl, -, -, -⟩ := h.shape
  have hname : components offsiteDirname ≠ [] := by decide
  rw [components_append_slash, components_append_slash]
  simp [hname]

theorem IsRoot.split {root : String} (h : IsRoot id root) :
    (split root).2 ≠ "" ∧ PyString.startsWith (split root).2 (id ++ "-") = true ∧
      PyString.has (split root).1 offsiteDirname = true := by
  obtain ⟨base, name, rfl, hslash, hne, hstart⟩ := h.shape
  have hlast : Posix.rstripSlash (base ++ "/" ++ offsiteDirname) = base ++ "/" ++ offsiteDirname := by
    apply rstripSlash_of_last (c := 'e')
    · rw [String.toList_append, List.getLast?_append_of_ne_nil _ (by decide)]
      decide
    · decide
  have hnonempty : base ++ "/" ++ offsiteDirname ≠ "" := by
    intro hempty
    have hlength := congrArg String.length hempty
    simp at hlength
  rw [split_append hslash, hlast, if_neg hnonempty]
  refine ⟨hne, hstart, ?_⟩
  have happ : base ++ "/" ++ offsiteDirname = base ++ "/" ++ offsiteDirname ++ "" := by simp
  rw [happ]
  exact has_offsite

/-- One round of the loop from below the root does not leave it. -/
theorem Below.dirname {root : String} (hroot : IsRoot id root) {rest : String}
    (hrest : ∀ q ∈ pieces rest, PyString.startsWith q (id ++ "-") = false) :
    PyString.startsWith (Posix.split (root ++ "/" ++ rest)).2 (id ++ "-") = false ∧
      Below id root (Posix.split (root ++ "/" ++ rest)).1 ∧
      (Posix.split (root ++ "/" ++ rest)).1.length < (root ++ "/" ++ rest).length := by
  have hone : "/".length = 1 := by decide
  rcases exists_last_piece rest with hslash | ⟨a, t, rfl, hslash⟩
  · rw [split_append hslash, hroot.rstripSlash, if_neg hroot.ne.1]
    refine ⟨hrest rest ?_, .inl rfl, ?_⟩
    · rw [pieces_of_not_mem hslash]
      exact List.mem_singleton_self _
    · simp only [String.length_append, hone]
      omega
  · have happ : root ++ "/" ++ (a ++ "/" ++ t) = root ++ "/" ++ a ++ "/" ++ t := by
      simp only [String.append_assoc]
    have hpieces : pieces (a ++ "/" ++ t) = pieces a ++ [t] := by
      rw [pieces_append_slash, pieces_of_not_mem hslash]
    have hslashes : rstripSlash (root ++ "/") = root := by
      rw [rstripSlash_append, if_pos (by decide), hroot.rstripSlash]
    have hlen := length_rstripSlash_le a
    rw [hpieces] at hrest
    rw [happ, split_append hslash, rstripSlash_append, hslashes]
    by_cases ha : Posix.rstripSlash a = ""
    · rw [if_pos ha, if_neg hroot.ne.1]
      refine ⟨hrest t (List.mem_append_right _ (List.mem_singleton_self t)), .inl rfl, ?_⟩
      simp only [String.length_append, hone]
      omega
    · have hne : root ++ "/" ++ Posix.rstripSlash a ≠ "" := by
        intro hempty
        have hlength := congrArg String.length hempty
        simp only [String.length_append, hone, String.length_empty] at hlength
        omega
      rw [if_neg ha, if_neg hne]
      refine ⟨hrest t (List.mem_append_right _ (List.mem_singleton_self t)),
        .inr ⟨Posix.rstripSlash a, rfl, fun q hq => ?_⟩, ?_⟩
      · exact hrest q (List.mem_append_left _ (mem_pieces_rstripSlash hq))
      · simp only [String.length_append, hone]
        omega

/-- From below the root the loop climbs to the root and stops there. -/
theorem climb_eq {root : String} (hroot : IsRoot id root) (hpath : Below id root path)
    (hn : path.length ≤ n) : climb id n path = root := by
  induction n generalizing path with
  | zero =>
      have hempty : path = "" := String.length_eq_zero_iff.mp (by omega)
      rcases hpath with rfl | ⟨rest, rfl, -⟩
      · exact absurd hempty hroot.ne.1
      · have hlength := congrArg String.length hempty
        have hone : "/".length = 1 := by decide
        simp only [String.length_append, hone, String.length_empty] at hlength
        omega
  | succ n ih =>
      unfold climb
      rcases hpath with rfl | ⟨rest, rfl, hrest⟩
      · have hhas := hroot.has ""
        rw [String.append_empty] at hhas
        obtain ⟨htail, hstart, hhead⟩ := hroot.split
        rw [if_pos ⟨hroot.ne.1, hroot.ne.2, hhas⟩]
        dsimp only
        rw [if_pos ⟨htail, hstart, hhead⟩]
      · obtain ⟨hstart, hbelow, hlength⟩ := Below.dirname hroot hrest
        have hlen : (root ++ "/" ++ rest).length = root.length + 1 + rest.length := by
          simp only [String.length_append]
          rfl
        have hpos : 0 < root.length := by
          rcases Nat.eq_zero_or_pos root.length with hzero | hpos
          · exact absurd (String.length_eq_zero_iff.mp hzero) hroot.ne.1
          · exact hpos
        have hne : root ++ "/" ++ rest ≠ "" := by
          intro heq
          rw [heq, String.length_empty] at hlen
          omega
        have hslash : root ++ "/" ++ rest ≠ "/" := by
          intro heq
          have hone : "/".length = 1 := by decide
          rw [heq, hone] at hlen
          omega
        have hhas := hroot.has ("/" ++ rest)
        rw [← String.append_assoc] at hhas
        have hnot : ¬ ((Posix.split (root ++ "/" ++ rest)).2 ≠ "" ∧
            PyString.startsWith (Posix.split (root ++ "/" ++ rest)).2 (id ++ "-") = true ∧
            PyString.has (Posix.split (root ++ "/" ++ rest)).1 offsiteDirname = true) := by
          rintro ⟨-, hfound, -⟩
          rw [hstart] at hfound
          cases hfound
        rw [if_pos ⟨hne, hslash, hhas⟩]
        dsimp only
        rw [if_neg hnot]
        exact ih hbelow (by omega)

/-- The directory that is deleted for a path at or below the root is the root. -/
theorem deleteTarget_eq {root : String} (hroot : IsRoot id root) (hpath : Below id root path) :
    deleteTarget id path = root := by
  have hhas := hroot.has ""
  rw [String.append_empty] at hhas
  unfold deleteTarget
  rw [climb_eq hroot hpath (le_refl _)]
  exact if_pos ⟨hroot.ne.1, hhas⟩

/-! ## From the root to the recorded path -/

theorem Below.of_parts {root : String} {parts : List String} (h : Parts parts) (hne : parts ≠ [])
    (hstart : ∀ q ∈ parts, PyString.startsWith q (id ++ "-") = false) :
    Below id root (root ++ "/" ++ "/".intercalate parts) :=
  .inr ⟨_, rfl, by rwa [pieces_intercalate h hne]⟩

theorem components_walked {root : String} (hroot : IsRoot id root) (names : List Name) :
    components (walked root names) = components root ++ texts names := by
  by_cases hnames : names = []
  · subst hnames
    simp [walked]
  · have hjoined : components ("/".intercalate (texts names)) = texts names := by
      have := components_joined false (parts_texts names)
      simpa [joined] using this
    rw [walked_eq hroot.rstripSlash hroot.ne.1 hnames, components_append_slash, hjoined]

theorem below_walked {root : String} (hroot : IsRoot id root) {names : List Name}
    (hstart : ∀ x ∈ names, PyString.startsWith x.1 (id ++ "-") = false) :
    Below id root (walked root names) := by
  by_cases hnames : names = []
  · subst hnames
    exact .inl rfl
  · rw [walked_eq hroot.rstripSlash hroot.ne.1 hnames]
    apply Below.of_parts (parts_texts names) (fun hnil => hnames (List.map_eq_nil_iff.mp hnil))
    intro q hq
    obtain ⟨x, hx, rfl⟩ := List.mem_map.mp hq
    exact hstart x hx

theorem isAbsolute_lstrip (s : String) : isAbsolute (PyString.lstrip s '/') = false := by
  unfold isAbsolute PyString.lstrip PyString.lstripBy
  rw [String.toList_ofList, beq_eq_false_iff_ne]
  intro h
  have hhead := List.head?_dropWhile_not (fun d => d == '/') s.toList
  rw [h] at hhead
  simp at hhead

/-- The maildir is found at or below the root. -/
theorem resolveMaildirInsideRestore_below {root maildirPath : String} {isdir : String → Bool}
    {dirs : List (List Name × List String)} {repoPrefix : Option String} (hroot : IsRoot id root)
    (hmaildir : ∀ q ∈ pieces (PyString.lstrip maildirPath '/'),
      PyString.startsWith q (id ++ "-") = false)
    (hdirs : ∀ d ∈ dirs, ∀ x ∈ d.1, PyString.startsWith x.1 (id ++ "-") = false)
    (h : resolveMaildirInsideRestore isdir (dirs.map fun d => (walked root d.1, d.2)) root
      maildirPath repoPrefix = some path) : Below id root path := by
  unfold resolveMaildirInsideRestore at h
  dsimp only at h
  split at h
  · obtain rfl := Option.some.inj h
    rw [join_of_rstripSlash hroot.rstripSlash hroot.ne.1 (isAbsolute_lstrip _)]
    exact .inr ⟨_, rfl, hmaildir⟩
  split at h
  · rename_i d hnamed
    obtain rfl := Option.some.inj h
    obtain ⟨-, hfind⟩ := Option.ite_none_right_eq_some.mp hnamed
    obtain ⟨e, he, rfl⟩ := List.mem_map.mp (List.mem_of_find?_eq_some hfind)
    exact below_walked hroot (hdirs e he)
  split at h
  · obtain rfl := Option.some.inj h
    exact .inl rfl
  · rename_i hparents
    obtain ⟨common, hcommon, h⟩ := Option.bind_eq_some_iff.mp h
    obtain ⟨shared, hshared, h⟩ := Option.bind_eq_some_iff.mp h
    obtain rfl := Option.some.inj h
    clear h
    split
    · rename_i heq
      rw [heq] at hshared
      -- the common path begins as the parent of the first mail folder does
      obtain ⟨p, ps, hps⟩ := List.exists_cons_of_ne_nil hparents
      rw [hps] at hcommon
      obtain ⟨more, hpre, hcases⟩ := commonpath_below hcommon hshared hroot.components_ne
      rcases hcases with rfl | ⟨hmore, rfl⟩
      · exact .inl rfl
      obtain ⟨d, hd, rfl⟩ := List.mem_map.mp (hps ▸ List.mem_cons_self : p ∈ _)
      obtain ⟨e, he, rfl⟩ := List.mem_map.mp (List.mem_filter.mp hd).1
      have htexts : more <+: texts e.1 := by
        have hwalked := hpre.trans (components_dirname_initial _)
        rw [components_walked hroot] at hwalked
        exact (List.prefix_append_right_inj _).mp hwalked
      refine Below.of_parts ((parts_texts e.1).subset fun _ h => htexts.subset h) hmore fun q hq => ?_
      obtain ⟨x, hx, rfl⟩ := List.mem_map.mp (htexts.subset hq)
      exact hdirs e he x hx
    · exact .inl rfl

/-! ## Roots of two recoveries -/

theorem digit_ne {c : Char} (hc : 0 < c.toNat ∧ c.toNat < 48) (n : ℕ) : IsoFormat.digit n ≠ c := by
  intro h
  have hvalue := congrArg Char.toNat h
  unfold IsoFormat.digit Char.ofNat at hvalue
  by_cases hvalid : (48 + n).isValidChar
  · rw [dif_pos hvalid] at hvalue
    change 48 + n = c.toNat at hvalue
    omega
  · rw [dif_neg hvalid] at hvalue
    change 0 = c.toNat at hvalue
    omega

theorem length_digits (k n : ℕ) : (IsoFormat.digits k n).length = k := by
  induction k generalizing n with
  | zero => rfl
  | succ k ih => simp [IsoFormat.digits, ih]

theorem not_mem_digits {c : Char} (hc : 0 < c.toNat ∧ c.toNat < 48) (k n : ℕ) :
    c ∉ IsoFormat.digits k n := by
  induction k generalizing n with
  | zero => simp [IsoFormat.digits]
  | succ k ih => simpa [IsoFormat.digits] using ⟨(digit_ne hc _).symm, ih _⟩

theorem length_timestamp (now : Time) : (timestamp now).toList.length = 14 := by
  unfold timestamp
  simp only [String.toList_ofList, List.length_append, length_digits]

theorem not_mem_timestamp {c : Char} (hc : 0 < c.toNat ∧ c.toNat < 48) (now : Time) :
    c ∉ (timestamp now).toList := by
  unfold timestamp
  simp only [String.toList_ofList, List.mem_append, not_mem_digits hc, or_self, not_false_iff]

theorem slash_not_mem_timestamp (now : Time) : '/' ∉ (timestamp now).toList :=
  not_mem_timestamp (by decide) now

theorem wrapperName_inj {id' : Id} (h : wrapperName id now = wrapperName id' now') :
    id = id' ∧ timestamp now = timestamp now' := by
  have hchars := congrArg String.toList h
  simp only [wrapperName, String.toList_append] at hchars
  have hsame := List.append_inj' hchars (by rw [length_timestamp, length_timestamp])
  have hid := List.append_inj' hsame.1 rfl
  exact ⟨String.toList_injective hid.1, String.toList_injective hsame.2⟩

theorem wrapperName_shape (h : '/' ∉ id.toList) (now : Time) :
    '/' ∉ (wrapperName id now).toList ∧ 14 < (wrapperName id now).length := by
  have hlength := length_timestamp now
  have hslash := slash_not_mem_timestamp now
  have hone : "-".length = 1 := by decide
  unfold wrapperName
  constructor
  · simpa [hslash] using h
  · rw [String.length_toList] at hlength
    rw [String.length_append, String.length_append, hone, hlength]
    omega

theorem isName_wrapperName (h : '/' ∉ id.toList) (now : Time) : IsName (wrapperName id now) := by
  obtain ⟨hslash, hlength⟩ := wrapperName_shape h now
  refine ⟨?_, ?_, ?_, hslash⟩ <;> intro heq <;> rw [heq] at hlength <;> revert hlength <;> decide

theorem wrapperName_ne_offsite (id : Id) (now : Time) : wrapperName id now ≠ offsiteDirname := by
  intro h
  have hchars := congrArg String.toList h
  have hsplit : offsiteDirname.toList = ".o".toList ++ "ffsite-restore".toList := by decide
  simp only [wrapperName, String.toList_append] at hchars
  rw [hsplit] at hchars
  have hsame := List.append_inj' hchars (by rw [length_timestamp]; rfl)
  have hdash := not_mem_timestamp (c := '-') (by decide) now
  rw [hsame.2] at hdash
  exact hdash (by decide)

theorem isRoot_buildRestoreRoot (storePath : String) (h : '/' ∉ id.toList) (now : Time) :
    IsRoot id (buildRestoreRoot storePath id now) where
  shape := by
    obtain ⟨hslash, hlength⟩ := wrapperName_shape h now
    refine ⟨storePath, wrapperName id now, rfl, hslash, (isName_wrapperName h now).1, ?_⟩
    unfold PyString.startsWith wrapperName
    rw [List.isPrefixOf_iff_prefix]
    exact ⟨(timestamp now).toList, String.toList_append.symm⟩

def offsite : Name := ⟨offsiteDirname, by decide⟩

/-- The place of the root. -/
theorem resolve_buildRestoreRoot (cwd : Path) (storePath : String) (h : '/' ∉ id.toList)
    (now : Time) : resolve cwd (buildRestoreRoot storePath id now) =
      baseDir cwd storePath ++ [offsite, ⟨wrapperName id now, isName_wrapperName h now⟩] := by
  have happ : buildRestoreRoot storePath id now =
      storePath ++ "/" ++ (offsiteDirname ++ "/" ++ wrapperName id now) := by
    simp only [buildRestoreRoot, String.append_assoc]
  have hoffsite : pieces offsiteDirname = [offsite.1] := pieces_name offsite
  have hname := pieces_name ⟨wrapperName id now, isName_wrapperName h now⟩
  rw [happ, resolve_below, pieces_append_slash, hoffsite, hname]
  have hname := enter_name (baseDir cwd storePath ++ [offsite])
    ⟨wrapperName id now, isName_wrapperName h now⟩
  simp only [List.cons_append, List.nil_append, walk_cons, walk_nil, enter_name, hname]
  simp

/-- Two directories with the same middle name are the same, or one lies in the base of the other. -/
theorem overlap_below {ν : Type*} {p q : List ν} {o x y : ν} (hx : x ≠ o) (hy : y ≠ o)
    (h : Overlap (p ++ [o, x]) (q ++ [o, y])) :
    p = q ∧ x = y ∨ p ++ [o, x] <+: q ∨ q ++ [o, y] <+: p := by
  have hone : ∀ {p q : List ν} {x y : ν}, x ≠ o → p ++ [o, x] <+: q ++ [o, y] →
      p = q ∧ x = y ∨ p ++ [o, x] <+: q := by
    intro p q x y hx h
    have hsnoc : q ++ [o, y] = q ++ [o] ++ [y] := by simp
    rw [hsnoc, List.prefix_concat_iff, List.prefix_concat_iff] at h
    rcases h with h | h | h
    · have hsame := List.append_inj' (h.trans hsnoc.symm) rfl
      obtain ⟨-, hlast⟩ := List.cons.inj hsame.2
      exact .inl ⟨hsame.1, (List.cons.inj hlast).1⟩
    · have hsnoc' : p ++ [o, x] = p ++ [o] ++ [x] := by simp
      have hsame := List.append_inj' (hsnoc'.symm.trans h) rfl
      exact absurd (List.cons.inj hsame.2).1 hx
    · exact .inr h
  rcases h with h | h
  · rcases hone hx h with h | h
    · exact .inl h
    · exact .inr (.inl h)
  · rcases hone hy h with ⟨rfl, rfl⟩ | h
    · exact .inl ⟨rfl, rfl⟩
    · exact .inr (.inr h)

end MailFallback.Recoveries
