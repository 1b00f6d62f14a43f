import MailFallback.Migration.FileOps
import Mathlib.Algebra.BigOperators.Group.Finset.Basic
import Mathlib.Algebra.BigOperators.Group.Finset.Piecewise
import Mathlib.Algebra.Order.BigOperators.Group.Finset

/-! # What the verification compares

The two counts of the verification are the numbers of files below the two directories. -/

namespace MailFallback

open Storage Posix Effects Job

variable {s s' : Host} {d : Files} {p q source dest : Path} {entries : List (Name × Bool)}

/-! ## Counting files -/

def filesBelow (d : Files) (p : Path) : Finset Path :=
  d.nodes.keys.toFinset.filter fun q => p <+: q ∧ (fileContent d q).isSome = true

theorem mem_filesBelow :
    q ∈ filesBelow d p ↔ p <+: q ∧ ∃ content, d.node q = some (.file content) := by
  simp only [filesBelow, Finset.mem_filter, List.mem_toFinset, Option.isSome_iff_exists,
    fileContent_eq_some]
  constructor
  · exact fun h => h.2
  · rintro ⟨hpre, content, hfile⟩
    refine ⟨?_, hpre, content, hfile⟩
    have hne : q ≠ [] := by
      rintro rfl
      simp at hfile
    rw [Disk.node_of_ne_nil d hne] at hfile
    exact AList.mem_keys.mpr (AList.lookup_isSome.mp (by rw [hfile]; rfl))

theorem filesBelow_file {content : List UInt8} (h : d.node p = some (.file content)) :
    filesBelow d p = {p} := by
  ext q
  simp only [mem_filesBelow, Finset.mem_singleton]
  constructor
  · rintro ⟨⟨r, rfl⟩, content', hfile⟩
    by_contra hne
    rw [Disk.node_ancestor hfile (by simpa using hne)] at h
    cases h
  · rintro rfl
    exact ⟨List.prefix_rfl, content, h⟩

/-- The files below a directory are those below its entries. -/
theorem filesBelow_dir (h : Listed d p entries) :
    filesBelow d p = entries.toFinset.biUnion fun e => filesBelow d (p ++ [e.1]) := by
  ext q
  simp only [Finset.mem_biUnion, mem_filesBelow, List.mem_toFinset]
  constructor
  · rintro ⟨⟨r, rfl⟩, content, hfile⟩
    cases r with
    | nil =>
        rw [List.append_nil, h.dir] at hfile
        cases hfile
    | cons x r =>
        rw [List.append_cons] at hfile
        have hx : d.node (p ++ [x]) ≠ none := by
          intro hnone
          rw [Disk.node_none_of_ancestor hnone] at hfile
          cases hfile
        obtain ⟨n, hn⟩ := Option.ne_none_iff_exists'.mp hx
        exact ⟨(x, decide (n = .dir)), h.mem.mpr ⟨n, hn, rfl⟩, ⟨r, by simp⟩, content,
          by rwa [List.append_cons]⟩
  · rintro ⟨e, -, hpre, hfile⟩
    exact ⟨(List.prefix_append p [e.1]).trans hpre, hfile⟩

theorem card_filesBelow (h : Listed d p entries) :
    (filesBelow d p).card = (entries.map fun e => (filesBelow d (p ++ [e.1])).card).sum := by
  rw [filesBelow_dir h, Finset.card_biUnion, List.sum_toFinset _ h.nodup]
  rintro ⟨x, b⟩ hx ⟨y, c⟩ hy hne
  rw [Finset.mem_coe, List.mem_toFinset, h.mem] at hx hy
  rw [Function.onFun, Finset.disjoint_left]
  rintro q hq hq'
  obtain ⟨r, hr⟩ := (mem_filesBelow.mp hq).1
  obtain ⟨r', hr'⟩ := (mem_filesBelow.mp hq').1
  have hxy : x = y := by simpa using congrArg (fun l => l[p.length]?) (hr.trans hr'.symm)
  subst hxy
  obtain ⟨n, hn, rfl⟩ := hx
  obtain ⟨m, hm, rfl⟩ := hy
  rw [hn] at hm
  cases hm
  exact hne rfl

/-! ## The verification -/

/-- The contract of a piece that changes nothing. -/
def lookContract (s : Host) : Contract HostOp Host where
  crash := fun s' => s' = s
  allow := NoRmtree

theorem look_refl (s : Host) : (lookContract s).crash s := rfl

/-- The scan counts the files. -/
theorem prescan_spec (n : ℕ) (p : Path) (s : Host) :
    Safe hostStep (lookContract s) (fun counts _ => counts.1 = (filesBelow s.files p).card)
      (fun _ _ => True) (prescan n p) s := by
  induction n generalizing p with
  | zero => exact ⟨rfl, trivial⟩
  | succ n ih =>
      apply Safe.bind
      refine (scandir_spec (look_refl s) nofun).post ?_ (fun _ _ _ _ => trivial)
      rintro entries s' - ⟨rfl, hlisted⟩
      refine (Safe.foldlM (fun done counts _ => counts.1 =
        (done.map fun e => (filesBelow s'.files (p ++ [e.1])).card).sum) entries rfl rfl ?_).post ?_
        (fun _ _ _ h => h)
      · rintro done ⟨x, b⟩ rest counts t rfl rfl hcounts
        obtain ⟨m, hm, hb⟩ : ∃ m, t.files.node (p ++ [x]) = some m ∧ b = decide (m = .dir) :=
          hlisted.mem.mp (by simp)
        dsimp only
        split
        · apply Safe.bind
          refine (ih (p ++ [x])).post ?_ (fun _ _ _ _ => trivial)
          rintro sub t' rfl hsub
          exact ⟨rfl, by simp [hcounts, hsub]⟩
        · apply Safe.bind
          refine (fileSize_spec (look_refl t) nofun).post ?_ (fun _ _ _ _ => trivial)
          rintro size t' - ⟨rfl, content, hfile⟩
          exact ⟨rfl, by simp [hcounts, filesBelow_file hfile]⟩
      · rintro counts t - hcounts
        rw [hcounts, card_filesBelow hlisted]

theorem verifyCopy_spec (limit : ℕ) (source dest : Path) (s : Host) :
    Safe hostStep (lookContract s)
      (fun verdict _ => verdict.1 = true →
        (filesBelow s.files source).card = (filesBelow s.files dest).card)
      (fun _ _ => True) (verifyCopy limit source dest) s := by
  apply Safe.bind
  refine (prescan_spec limit source s).post ?_ (fun _ _ _ _ => trivial)
  rintro src s' rfl hsrc
  apply Safe.bind
  refine (prescan_spec limit dest s').post ?_ (fun _ _ _ _ => trivial)
  rintro dst s'' rfl hdst
  split
  · rename_i heq
    exact ⟨rfl, fun _ => by rw [← hsrc, ← hdst, heq]⟩
  · exact ⟨rfl, nofun⟩

end MailFallback
