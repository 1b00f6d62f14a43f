import Mathlib.Data.List.Basic
import Mathlib.Data.List.DropRight
import Mathlib.Data.List.Infix

/-! # Path strings and the directories they name

A path string is read piece by piece, the way the kernel walks it in a tree
without symbolic links: empty pieces and `.` stay, `..` goes up. -/

namespace Posix

/-- What a directory entry can be called. -/
def IsName (s : String) : Prop :=
  s ≠ "" ∧ s ≠ "." ∧ s ≠ ".." ∧ '/' ∉ s.toList

instance : DecidablePred IsName := fun s => by
  unfold IsName
  infer_instance

abbrev Name := {s : String // IsName s}

/-- An absolute directory or file, as the names met from the root. -/
abbrev Path := List Name

/-- The pieces of a path string between its slashes. -/
def pieces (s : String) : List String :=
  (s.toList.splitOn '/').map String.ofList

def enter (dir : Path) (piece : String) : Path :=
  if h : IsName piece then dir ++ [⟨piece, h⟩]
  else if piece = ".." then dir.dropLast
  else dir

def walk (dir : Path) (ps : List String) : Path :=
  ps.foldl enter dir

def isAbsolute (s : String) : Bool :=
  s.toList.head? == some '/'

/-- The file a path string names for a process whose working directory is `cwd`. -/
def resolve (cwd : Path) (s : String) : Path :=
  walk (if isAbsolute s then [] else cwd) (pieces s)

/-- Python's `str.rstrip("/")`. -/
def rstripSlash (s : String) : String :=
  String.ofList (s.toList.rdropWhile (· == '/'))

/-- `posixpath.join` of two strings. -/
def join (a b : String) : String :=
  if isAbsolute b then b
  else if a = "" ∨ a.toList.getLast? = some '/' then a ++ b
  else a ++ "/" ++ b

/-- One of the two lies at or below the other. -/
def Overlap {ν : Type*} (p q : List ν) : Prop := p <+: q ∨ q <+: p

instance {ν : Type*} [DecidableEq ν] (p q : List ν) : Decidable (Overlap p q) := by
  unfold Overlap
  infer_instance

theorem Overlap.symm {ν : Type*} {p q : List ν} (h : Overlap p q) : Overlap q p := h.elim .inr .inl

/-! ## Names -/

@[simp] theorem enter_name (dir : Path) (x : Name) : enter dir x.1 = dir ++ [x] := by
  simp [enter, x.2]

@[simp] theorem enter_empty (dir : Path) : enter dir "" = dir := by
  simp [enter, IsName]

@[simp] theorem enter_dot (dir : Path) : enter dir "." = dir := by
  simp [enter, IsName]

@[simp] theorem enter_dotdot (dir : Path) : enter dir ".." = dir.dropLast := by
  simp [enter, IsName]

@[simp] theorem walk_nil (dir : Path) : walk dir [] = dir := rfl

@[simp] theorem walk_cons (dir : Path) (p : String) (ps : List String) :
    walk dir (p :: ps) = walk (enter dir p) ps := rfl

theorem walk_append (dir : Path) (ps qs : List String) :
    walk dir (ps ++ qs) = walk (walk dir ps) qs :=
  List.foldl_append

/-! ## Pieces of joined strings -/

theorem pieces_append_slash (a b : String) : pieces (a ++ "/" ++ b) = pieces a ++ pieces b := by
  have h : (a ++ "/" ++ b).toList = a.toList ++ '/' :: b.toList := by simp
  rw [pieces, h, List.splitOn_append_cons_self, List.map_append]
  rfl

theorem pieces_of_not_mem {s : String} (h : '/' ∉ s.toList) : pieces s = [s] := by
  rw [pieces, List.splitOn_eq_singleton h]
  simp

theorem pieces_name (x : Name) : pieces x.1 = [x.1] := pieces_of_not_mem x.2.2.2.2

@[simp] theorem pieces_empty : pieces "" = [""] := rfl

/-- Trailing slashes add empty pieces only. -/
theorem walk_pieces_slashes (dir : Path) (s : List Char) (n : ℕ) :
    walk dir (pieces (String.ofList (s ++ List.replicate n '/'))) = walk dir (pieces (String.ofList s)) := by
  induction n with
  | zero => simp
  | succ n ih =>
      have h : String.ofList (s ++ List.replicate (n + 1) '/') =
          String.ofList (s ++ List.replicate n '/') ++ "/" ++ "" := by
        apply String.toList_injective
        simp [List.replicate_succ']
      rw [h, pieces_append_slash, walk_append, ih]
      simp

theorem exists_rstripSlash (s : String) :
    ∃ n, s.toList = (rstripSlash s).toList ++ List.replicate n '/' := by
  refine ⟨(s.toList.rtakeWhile (· == '/')).length, ?_⟩
  have hall : ∀ c ∈ s.toList.rtakeWhile (· == '/'), c = '/' := by
    intro c hc
    simpa using List.mem_rtakeWhile_imp hc
  rw [← List.eq_replicate_of_mem hall]
  simp [rstripSlash, List.rdropWhile_append_rtakeWhile]

theorem walk_pieces_rstripSlash (dir : Path) (s : String) :
    walk dir (pieces (rstripSlash s)) = walk dir (pieces s) := by
  obtain ⟨n, hn⟩ := exists_rstripSlash s
  have h := walk_pieces_slashes dir (rstripSlash s).toList n
  rw [← hn] at h
  simpa using h.symm

/-- The directory from which `base/rest` is read: the one `base` names, and the root
for the empty string. -/
def baseDir (cwd : Path) (base : String) : Path :=
  resolve cwd (rstripSlash base ++ "/")

theorem isAbsolute_append_slash (a b : String) :
    isAbsolute (a ++ "/" ++ b) = isAbsolute (a ++ "/") := by
  simp only [isAbsolute, String.toList_append]
  cases a.toList <;> rfl

/-- The string `base/rest`, built as the services build it, is read from `base`. -/
theorem resolve_child (cwd : Path) (base rest : String) :
    resolve cwd (rstripSlash base ++ "/" ++ rest) = walk (baseDir cwd base) (pieces rest) := by
  have hbase : pieces (rstripSlash base ++ "/") = pieces (rstripSlash base) ++ [""] := by
    simpa using pieces_append_slash (rstripSlash base) ""
  simp only [baseDir, resolve, isAbsolute_append_slash, pieces_append_slash, walk_append, hbase,
    walk_cons, walk_nil, enter_empty]

theorem isAbsolute_rstripSlash_slash (s : String) :
    isAbsolute (rstripSlash s ++ "/") = isAbsolute (s ++ "/") := by
  obtain ⟨n, hn⟩ := exists_rstripSlash s
  simp only [isAbsolute, String.toList_append, hn]
  cases (rstripSlash s).toList with
  | nil => cases n <;> simp [List.replicate_succ]
  | cons c cs => rfl

/-- With or without the slashes at the end of the base. -/
theorem resolve_below (cwd : Path) (base rest : String) :
    resolve cwd (base ++ "/" ++ rest) = walk (baseDir cwd base) (pieces rest) := by
  rw [← resolve_child]
  simp only [resolve, isAbsolute_append_slash _ rest, isAbsolute_rstripSlash_slash,
    pieces_append_slash, walk_append, walk_pieces_rstripSlash]

@[simp] theorem rstripSlash_rstripSlash (s : String) :
    rstripSlash (rstripSlash s) = rstripSlash s := by
  simp [rstripSlash, List.rdropWhile_idempotent]

@[simp] theorem baseDir_rstripSlash (cwd : Path) (base : String) :
    baseDir cwd (rstripSlash base) = baseDir cwd base := by
  simp [baseDir]

theorem baseDir_of_ne (cwd : Path) {base : String} (h : base ≠ "") :
    baseDir cwd base = resolve cwd base := by
  have habs : isAbsolute (rstripSlash base ++ "/") = isAbsolute base := by
    obtain ⟨n, hn⟩ := exists_rstripSlash base
    have hbase : base.toList ≠ [] := by simpa using h
    simp only [isAbsolute, String.toList_append, hn]
    cases hr : (rstripSlash base).toList with
    | nil =>
        rw [hn, hr] at hbase
        cases n with
        | zero => simp at hbase
        | succ n => simp [List.replicate_succ]
    | cons c cs => simp
  have hpieces : pieces (rstripSlash base ++ "/") = pieces (rstripSlash base) ++ [""] := by
    simpa using pieces_append_slash (rstripSlash base) ""
  simp only [baseDir, resolve, habs, hpieces, walk_append, walk_cons, walk_nil, enter_empty,
    walk_pieces_rstripSlash]

/-! ## What a walk can add -/

/-- What stands at the end of a walk beyond its first names was entered on the way. -/
theorem mem_drop_walk {dir : Path} {ps : List String} {n : ℕ} {x : Name}
    (hdir : dir.length ≤ n) (hx : x ∈ (walk dir ps).drop n) : x.1 ∈ ps := by
  suffices ∀ (qs : List String) (dir : Path), (∀ y ∈ dir.drop n, y.1 ∈ ps) → (∀ q ∈ qs, q ∈ ps) →
      ∀ y ∈ (walk dir qs).drop n, y.1 ∈ ps by
    refine this ps dir ?_ (fun _ h => h) x hx
    intro y hy
    rw [List.drop_eq_nil_of_le hdir] at hy
    cases hy
  intro qs
  induction qs with
  | nil => exact fun _ h _ => h
  | cons q qs ih =>
      intro dir hd hq
      refine ih (enter dir q) ?_ fun r hr => hq r (List.mem_cons_of_mem q hr)
      intro y hy
      unfold enter at hy
      split at hy
      · rw [List.drop_append, List.mem_append] at hy
        rcases hy with hy | hy
        · exact hd y hy
        · obtain rfl := List.mem_singleton.mp (List.mem_of_mem_drop hy)
          exact hq q List.mem_cons_self
      · split at hy
        · rw [List.dropLast_eq_take, List.drop_take] at hy
          exact hd y (List.mem_of_mem_take hy)
        · exact hd y hy

theorem length_le_of_mem_pieces {s p : String} (h : p ∈ pieces s) : p.length ≤ s.length := by
  suffices ∀ (n : ℕ) (l : List Char), l.length = n → ∀ q ∈ l.splitOn '/', q.length ≤ n by
    obtain ⟨q, hq, rfl⟩ := List.mem_map.mp h
    rw [String.length_ofList, ← String.length_toList]
    exact this s.toList.length s.toList rfl q hq
  intro n
  induction n using Nat.strong_induction_on with
  | h n ih =>
      intro l hl q hq
      by_cases hslash : '/' ∈ l
      · obtain ⟨xs, ys, rfl⟩ := List.mem_iff_append.mp hslash
        rw [List.length_append, List.length_cons] at hl
        rw [List.splitOn_append_cons_self, List.mem_append] at hq
        rcases hq with hq | hq
        · exact (ih xs.length (by omega) xs rfl q hq).trans (by omega)
        · exact (ih ys.length (by omega) ys rfl q hq).trans (by omega)
      · rw [List.splitOn_eq_singleton hslash, List.mem_singleton] at hq
        rw [hq, hl]

/-- A slash makes every piece shorter than the string. -/
theorem length_lt_of_mem_pieces {s p : String} (hslash : '/' ∈ s.toList) (h : p ∈ pieces s) :
    p.length < s.length := by
  obtain ⟨xs, ys, hxy⟩ := List.mem_iff_append.mp hslash
  obtain rfl : s = String.ofList xs ++ "/" ++ String.ofList ys := by
    apply String.toList_injective
    simp [hxy]
  have hlen : (String.ofList xs ++ "/" ++ String.ofList ys).length = xs.length + 1 + ys.length := by
    simp [← String.length_toList]
    omega
  rw [pieces_append_slash, List.mem_append] at h
  rw [hlen]
  rcases h with h | h
  · have hle := length_le_of_mem_pieces h
    rw [String.length_ofList] at hle
    omega
  · have hle := length_le_of_mem_pieces h
    rw [String.length_ofList] at hle
    omega

end Posix
