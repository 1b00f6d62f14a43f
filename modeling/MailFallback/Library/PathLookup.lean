import MailFallback.Library.PosixPath
import MailFallback.Library.Disk

/-! # Path strings on a disk

`resolve` reads a path string as text; a system call walks it on the disk and fails where
a directory on the way is missing, also when the next piece is `..`. -/

namespace Posix

open Storage

variable {β : Type*}

def step (d : Disk Name β) (dir : Path) (piece : String) : Option Path :=
  if d.isDir dir then some (enter dir piece) else none

def walkOn (d : Disk Name β) (dir : Path) (ps : List String) : Option Path :=
  ps.foldlM (step d) dir

/-- The place a path string leads to, whether or not something stands there. -/
def find (d : Disk Name β) (cwd : Path) (s : String) : Option Path :=
  if s = "" then none else walkOn d (if isAbsolute s then [] else cwd) (pieces s)

/-- Python's `os.path.isdir`. -/
def isdir (d : Disk Name β) (cwd : Path) (s : String) : Bool :=
  (find d cwd s).any d.isDir

/-- Python's `os.path.exists`. -/
def «exists» (d : Disk Name β) (cwd : Path) (s : String) : Bool :=
  (find d cwd s).any d.has

/-- `rmdir` refuses a string that ends in `.` or `..`. -/
def rmdirRefuses (s : String) : Bool :=
  match ((pieces s).filter (· ≠ "")).getLast? with
  | some p => p == "." || p == ".."
  | none => true

/-- Python's `shutil.rmtree` with `ignore_errors`: what is `stuck` cannot be removed. -/
def rmtree (d : Disk Name β) (cwd : Path) (s : String) (stuck : Path → Bool) : Disk Name β :=
  match find d cwd s with
  | some p =>
      if d.isDir p then d.eraseTree p fun q => stuck q || (rmdirRefuses s && q == p) else d
  | none => d

theorem step_eq_some {d : Disk Name β} {dir p : Path} {piece : String} :
    step d dir piece = some p ↔ d.node dir = some .dir ∧ enter dir piece = p := by
  simp [step, ← Disk.isDir_iff]

theorem walkOn_append (d : Disk Name β) (dir : Path) (ps qs : List String) :
    walkOn d dir (ps ++ qs) = (walkOn d dir ps).bind fun dir => walkOn d dir qs :=
  List.foldlM_append

theorem walkOn_eq_some {d : Disk Name β} {dir p : Path} {ps : List String}
    (h : walkOn d dir ps = some p) : walk dir ps = p := by
  induction ps generalizing dir with
  | nil => simpa [walkOn] using h
  | cons q ps ih =>
      obtain ⟨dir', hstep, hrest⟩ := Option.bind_eq_some_iff.mp h
      obtain ⟨-, rfl⟩ := step_eq_some.mp hstep
      exact ih hrest

/-- A walk that succeeds leads where the text says. -/
theorem find_eq_some {d : Disk Name β} {cwd p : Path} {s : String} (h : find d cwd s = some p) :
    resolve cwd s = p := by
  unfold find at h
  split at h
  · cases h
  · exact walkOn_eq_some h

theorem isdir_iff {d : Disk Name β} {cwd : Path} {s : String} :
    isdir d cwd s = true ↔ ∃ p, find d cwd s = some p ∧ d.node p = some .dir := by
  simp [isdir, Option.any_eq_true, Disk.isDir_iff]

theorem find_ne_empty {d : Disk Name β} {cwd p : Path} {s : String} (h : find d cwd s = some p) :
    s ≠ "" := by
  rintro rfl
  simp [find] at h

theorem pieces_ne_nil (s : String) : pieces s ≠ [] := by
  simp [pieces, List.splitOn_ne_nil]

/-- A walk checks that it starts in a directory. -/
theorem walkOn_step_empty (d : Disk Name β) (dir : Path) {ps : List String} (h : ps ≠ []) :
    (step d dir "").bind (fun dir => walkOn d dir ps) = walkOn d dir ps := by
  cases ps with
  | nil => exact absurd rfl h
  | cons p ps =>
      by_cases hdir : d.isDir dir = true
      · simp [step, hdir]
      · simp [step, walkOn, hdir]

/-- A joined string is walked from where its first part leads. -/
theorem find_append_slash (d : Disk Name β) (cwd : Path) (a b : String) :
    find d cwd (a ++ "/" ++ b) = (find d cwd (a ++ "/")).bind fun dir => walkOn d dir (pieces b) := by
  have hpieces : pieces (a ++ "/") = pieces a ++ [""] := by
    simpa using pieces_append_slash a ""
  have hne : ∀ c : String, a ++ "/" ++ c ≠ "" := by
    intro c h
    simp at h
  have hslash : a ++ "/" ≠ "" := by simp
  simp only [find, hne, hslash, if_false, isAbsolute_append_slash, pieces_append_slash, hpieces,
    walkOn_append, Option.bind_assoc]
  congr 1
  funext dir
  have hone : walkOn d dir [""] = step d dir "" := by simp [walkOn]
  rw [hone, walkOn_step_empty d dir (pieces_ne_nil b)]

theorem find_slash {d : Disk Name β} {cwd p : Path} {s : String} (h : find d cwd s = some p)
    (hdir : d.node p = some .dir) : find d cwd (s ++ "/") = some p := by
  have hpieces : pieces (s ++ "/") = pieces s ++ [""] := by
    simpa using pieces_append_slash s ""
  have hne := find_ne_empty h
  have habs : isAbsolute (s ++ "/") = isAbsolute s := by
    have hs : s.toList ≠ [] := by simpa using hne
    simp only [isAbsolute, String.toList_append]
    cases hc : s.toList with
    | nil => exact absurd hc hs
    | cons c cs => rfl
  have hslash : s ++ "/" ≠ "" := by simp
  simp only [find, hne, hslash, if_false, habs, hpieces, walkOn_append] at h ⊢
  rw [h]
  simp [walkOn, step, Disk.isDir_iff.mpr hdir]

theorem isAbsolute_name (x : Name) : isAbsolute x.1 = false := by
  have hmem := x.2.2.2.2
  simp only [isAbsolute]
  cases hc : x.1.toList with
  | nil => rfl
  | cons c cs =>
      rw [hc] at hmem
      simp only [List.head?_cons, beq_eq_false_iff_ne, ne_eq, Option.some.injEq]
      rintro rfl
      simp at hmem

/-- A join with a relative string puts one slash between the two. -/
theorem join_relative {s b : String} (hb : isAbsolute b = false) (hne : s ≠ "") :
    (∃ a, s = a ++ "/" ∧ join s b = a ++ "/" ++ b) ∨ join s b = s ++ "/" ++ b := by
  simp only [join, hb, Bool.false_eq_true, if_false, hne, false_or]
  split
  · rename_i hlast
    obtain ⟨cs, hcs⟩ := List.getLast?_eq_some_iff.mp hlast
    have hs : s = String.ofList cs ++ "/" := by
      apply String.toList_injective
      simp [hcs]
    exact .inl ⟨String.ofList cs, hs, by rw [hs]⟩
  · exact .inr rfl

theorem pieces_join {s : String} (x : Name) (hne : s ≠ "") :
    ∃ ps, pieces (join s x.1) = ps ++ [x.1] := by
  rcases join_relative (isAbsolute_name x) hne with ⟨a, -, hjoin⟩ | hjoin
  · exact ⟨pieces a, by rw [hjoin, pieces_append_slash, pieces_name]⟩
  · exact ⟨pieces s, by rw [hjoin, pieces_append_slash, pieces_name]⟩

theorem join_inj {s : String} {x y : Name} (hne : s ≠ "") (h : join s x.1 = join s y.1) :
    x = y := by
  have hlast : ∀ z : Name, (pieces (join s z.1)).getLast? = some z.1 := by
    intro z
    obtain ⟨ps, hps⟩ := pieces_join z hne
    simp [hps]
  have hx := hlast x
  rw [h, hlast y] at hx
  exact Subtype.ext (Option.some.inj hx).symm

/-- A join with a relative string is walked from where the first string leads. -/
theorem find_join_relative {d : Disk Name β} {cwd p : Path} {s b : String}
    (hb : isAbsolute b = false) (h : find d cwd s = some p) (hdir : d.node p = some .dir) :
    find d cwd (join s b) = walkOn d p (pieces b) := by
  rcases join_relative hb (find_ne_empty h) with ⟨a, hs, hjoin⟩ | hjoin
  · rw [hjoin, find_append_slash, ← hs, h]
    rfl
  · rw [hjoin, find_append_slash, find_slash h hdir]
    rfl

/-- The string `join a x` leads to the entry `x` of the directory `a` leads to. -/
theorem find_join {d : Disk Name β} {cwd p : Path} {s : String} (x : Name)
    (h : find d cwd s = some p) (hdir : d.node p = some .dir) :
    find d cwd (join s x.1) = some (p ++ [x]) := by
  rw [find_join_relative (isAbsolute_name x) h hdir, pieces_name]
  simp [walkOn, step, Disk.isDir_iff.mpr hdir]

theorem resolve_join_relative (cwd : Path) {s b : String} (hb : isAbsolute b = false)
    (hne : s ≠ "") : resolve cwd (join s b) = walk (resolve cwd s) (pieces b) := by
  have habs : isAbsolute (s ++ "/" ++ b) = isAbsolute s := by
    have hs : s.toList ≠ [] := by simpa using hne
    simp only [isAbsolute, String.toList_append]
    cases hc : s.toList with
    | nil => exact absurd hc hs
    | cons c cs => rfl
  rcases join_relative hb hne with ⟨a, rfl, hjoin⟩ | hjoin
  · have hpieces : pieces (a ++ "/") = pieces a ++ [""] := by
      simpa using pieces_append_slash a ""
    rw [hjoin, resolve, resolve, isAbsolute_append_slash, pieces_append_slash, hpieces,
      walk_append, walk_append]
    simp
  · rw [hjoin, resolve, resolve, habs, pieces_append_slash, walk_append]

/-! ## Walks along names -/

/-- The pieces that a path relative to some directory is written with. -/
def texts (names : List Name) : List String := names.map fun x => x.1

@[simp] theorem texts_nil : texts [] = [] := rfl

@[simp] theorem texts_cons (x : Name) (names : List Name) :
    texts (x :: names) = x.1 :: texts names := rfl

theorem texts_injective : Function.Injective texts :=
  List.map_injective_iff.mpr Subtype.val_injective

@[simp] theorem walk_texts (dir : Path) (names : List Name) :
    walk dir (texts names) = dir ++ names := by
  induction names generalizing dir with
  | nil => simp
  | cons x names ih => simp [ih]

/-- What exists is reached. -/
theorem walkOn_texts {d : Disk Name β} {dir : Path} {names : List Name} {n : Node β}
    (h : d.node (dir ++ names) = some n) : walkOn d dir (texts names) = some (dir ++ names) := by
  induction names generalizing dir with
  | nil => simp [walkOn]
  | cons x names ih =>
      have hdir : d.node dir = some .dir := Disk.node_ancestor h (by simp)
      have hrest : d.node (dir ++ [x] ++ names) = some n := by simpa using h
      have hstep : step d dir x.1 = some (dir ++ [x]) := step_eq_some.mpr ⟨hdir, enter_name dir x⟩
      have := ih hrest
      simp only [walkOn] at this
      simp [walkOn, hstep, this]

theorem step_congr {d d' : Disk Name β} (h : ∀ q, d.node q = d'.node q) : step d = step d' := by
  funext dir piece
  have hdir : d.isDir dir = d'.isDir dir := by simp only [Disk.isDir, h]
  simp only [step, hdir]

theorem find_congr {d d' : Disk Name β} (h : ∀ q, d.node q = d'.node q) (cwd : Path) (s : String) :
    find d cwd s = find d' cwd s := by
  simp only [find, walkOn, step_congr h]

/-! ## Recursive deletes -/

/-- A recursive delete changes nothing but what stands where its string leads. -/
theorem rmtree_cases (d : Disk Name β) (cwd : Path) (s : String) (stuck : Path → Bool) (q : Path) :
    (rmtree d cwd s stuck).node q = d.node q ∨
      resolve cwd s <+: q ∧ (rmtree d cwd s stuck).node q = none := by
  unfold rmtree
  cases hfind : find d cwd s with
  | none => exact .inl rfl
  | some p =>
      rw [find_eq_some hfind]
      dsimp only
      split
      · exact Disk.node_eraseTree_cases ..
      · exact .inl rfl

theorem rmtree_of_find {d : Disk Name β} {cwd p : Path} {s : String} (stuck : Path → Bool)
    (h : find d cwd s = some p) (hdir : d.node p = some .dir) (hlast : rmdirRefuses s = false) :
    rmtree d cwd s stuck = d.eraseTree p stuck := by
  simp [rmtree, h, Disk.isDir_iff.mpr hdir, hlast]

theorem rmdirRefuses_of_pieces {s p : String} {ps : List String} (h : pieces s = ps ++ [p])
    (hne : p ≠ "") : rmdirRefuses s = (p == "." || p == "..") := by
  simp [rmdirRefuses, h, hne]

theorem rmdirRefuses_name {s : String} {ps : List String} (x : Name)
    (h : pieces s = ps ++ [x.1]) : rmdirRefuses s = false := by
  rw [rmdirRefuses_of_pieces h x.2.1]
  simp [x.2.2.1, x.2.2.2.1]

end Posix
