import Mathlib.Data.List.AList
import Mathlib.Data.List.Infix

/-! # Disks

A disk is a finite tree of directories and files without links. It is stored flat,
as an association from absolute paths to nodes; that every node lies in a directory
is part of the structure, so each operation proves it once. -/

namespace Storage

inductive Node (β : Type*) where
  | dir
  | file (content : β)
  deriving DecidableEq, Repr

variable {ν β : Type*} [DecidableEq ν]

structure Disk (ν β : Type*) [DecidableEq ν] where
  nodes : AList (fun _ : List ν => Node β)
  /-- The root is a directory that is never listed. -/
  root : [] ∉ nodes
  closed : ∀ p x, p ++ [x] ∈ nodes → p = [] ∨ nodes.lookup p = some .dir

namespace Disk

def node (d : Disk ν β) (p : List ν) : Option (Node β) :=
  if p = [] then some .dir else d.nodes.lookup p

def has (d : Disk ν β) (p : List ν) : Bool := (d.node p).isSome

def isDir (d : Disk ν β) (p : List ν) : Bool :=
  match d.node p with
  | some .dir => true
  | _ => false

@[simp] theorem node_nil (d : Disk ν β) : d.node [] = some .dir := by simp [node]

theorem node_of_ne_nil (d : Disk ν β) {p : List ν} (h : p ≠ []) : d.node p = d.nodes.lookup p := by
  simp [node, h]

theorem isDir_iff {d : Disk ν β} {p : List ν} : d.isDir p = true ↔ d.node p = some .dir := by
  unfold isDir
  cases d.node p with
  | none => simp
  | some n => cases n <;> simp

theorem has_iff {d : Disk ν β} {p : List ν} : d.has p = true ↔ ∃ n, d.node p = some n := by
  simp [has, Option.isSome_iff_exists]

theorem has_eq_false_iff {d : Disk ν β} {p : List ν} : d.has p = false ↔ d.node p = none := by
  simp [has]

theorem node_mem_entries (d : Disk ν β) {p : List ν} (h : p ≠ []) (n : Node β) :
    d.node p = some n ↔ ⟨p, n⟩ ∈ d.nodes.entries := by
  rw [node_of_ne_nil d h]
  exact AList.mem_lookup_iff

/-- Every node lies in a directory. -/
theorem node_parent {d : Disk ν β} {p : List ν} {x : ν} {n : Node β}
    (h : d.node (p ++ [x]) = some n) : d.node p = some .dir := by
  rw [node_of_ne_nil d (by simp)] at h
  have hmem : p ++ [x] ∈ d.nodes := by
    rw [← AList.lookup_isSome, h]
    rfl
  rcases d.closed p x hmem with hp | hp
  · simp [hp]
  · by_cases hnil : p = []
    · simp [hnil]
    · rwa [node_of_ne_nil d hnil]

/-- Every node lies below directories all the way up. -/
theorem node_ancestor {d : Disk ν β} {p q : List ν} {n : Node β}
    (h : d.node (p ++ q) = some n) (hq : q ≠ []) : d.node p = some .dir := by
  induction q using List.reverseRecOn generalizing n with
  | nil => exact absurd rfl hq
  | append_singleton q x ih =>
      rw [← List.append_assoc] at h
      have hparent := node_parent h
      by_cases hnil : q = []
      · simpa [hnil] using hparent
      · exact ih hparent hnil

theorem node_none_of_ancestor {d : Disk ν β} {p q : List ν} (h : d.node p = none) :
    d.node (p ++ q) = none := by
  by_cases hq : q = []
  · simpa [hq] using h
  · cases hn : d.node (p ++ q) with
    | none => rfl
    | some n =>
        rw [node_ancestor hn hq] at h
        cases h

/-! ## Listing a directory -/

/-- The entries of a directory, in the order the disk holds them. -/
def children (d : Disk ν β) (p : List ν) : List (ν × Node β) :=
  d.nodes.entries.filterMap fun e =>
    match e.1.getLast? with
    | some x => if e.1.dropLast = p then some (x, e.2) else none
    | none => none

theorem mem_children {d : Disk ν β} {p : List ν} {x : ν} {n : Node β} :
    (x, n) ∈ d.children p ↔ d.node (p ++ [x]) = some n := by
  rw [node_mem_entries d (by simp)]
  simp only [children, List.mem_filterMap]
  constructor
  · rintro ⟨⟨q, m⟩, hmem, h⟩
    cases q using List.reverseRecOn with
    | nil => simp at h
    | append_singleton q y =>
        simp only [List.getLast?_append, List.getLast?_singleton, Option.some_or,
          List.dropLast_concat, Option.ite_none_right_eq_some, Option.some.injEq,
          Prod.mk.injEq] at h
        obtain ⟨rfl, rfl, rfl⟩ := h
        exact hmem
  · intro h
    exact ⟨⟨p ++ [x], n⟩, h, by simp⟩

theorem children_nodup (d : Disk ν β) (p : List ν) : (d.children p).Nodup := by
  apply List.Nodup.filterMap ?_ d.nodes.nodupKeys.nodup
  rintro ⟨q, m⟩ ⟨q', m'⟩ ⟨x, n⟩ h h'
  cases q using List.reverseRecOn with
  | nil => simp at h
  | append_singleton q y =>
      cases q' using List.reverseRecOn with
      | nil => simp at h'
      | append_singleton q' y' =>
          simp only [List.getLast?_append, List.getLast?_singleton, Option.some_or,
            List.dropLast_concat, Option.mem_def, Option.ite_none_right_eq_some,
            Option.some.injEq, Prod.mk.injEq] at h h'
          obtain ⟨rfl, rfl, rfl⟩ := h
          obtain ⟨rfl, rfl, rfl⟩ := h'
          rfl

/-! ## Adding a node -/

/-- A node may be put where its directory exists and no directory would be replaced. -/
def CanPut (d : Disk ν β) (p : List ν) : Prop :=
  ∃ q x, p = q ++ [x] ∧ d.node q = some .dir ∧ d.node p ≠ some .dir

theorem CanPut.ne_nil {d : Disk ν β} {p : List ν} (h : d.CanPut p) : p ≠ [] := by
  obtain ⟨q, x, rfl, _⟩ := h
  simp

def put (d : Disk ν β) (p : List ν) (n : Node β) (h : d.CanPut p) : Disk ν β where
  nodes := d.nodes.insert p n
  root := by
    have hp := h.ne_nil
    have hroot := d.root
    simp only [AList.mem_insert, not_or]
    exact ⟨fun he => hp he.symm, hroot⟩
  closed := by
    intro q x hmem
    have hold : ∀ r : List ν, r ≠ p → d.node r = some .dir →
        r = [] ∨ (d.nodes.insert p n).lookup r = some .dir := by
      intro r hr hdir
      by_cases hnil : r = []
      · exact .inl hnil
      · right
        rw [AList.lookup_insert_ne hr, ← node_of_ne_nil d hnil]
        exact hdir
    obtain ⟨q', x', rfl, hparent, hnot⟩ := h
    rcases (AList.mem_insert _).mp hmem with he | hmem
    · obtain ⟨rfl, _⟩ := List.append_inj' he rfl
      exact hold q (by simp) hparent
    · obtain ⟨m, hm⟩ := Option.isSome_iff_exists.mp (AList.lookup_isSome.mpr hmem)
      have hdir : d.node q = some .dir :=
        node_parent (p := q) (x := x) (n := m) (by rw [node_of_ne_nil d (by simp)]; exact hm)
      refine hold q ?_ hdir
      rintro rfl
      exact hnot hdir

theorem node_put (d : Disk ν β) (p q : List ν) (n : Node β) (h : d.CanPut p) :
    (d.put p n h).node q = if q = p then some n else d.node q := by
  by_cases hq : q = []
  · subst q
    have hp := h.ne_nil
    simp [hp.symm]
  · rw [node_of_ne_nil _ hq, node_of_ne_nil _ hq]
    by_cases he : q = p
    · subst q
      simp [put]
    · simp [put, he, AList.lookup_insert_ne he]

instance (d : Disk ν β) (p : List ν) : Decidable (d.CanPut p) :=
  decidable_of_iff (p ≠ [] ∧ d.isDir p.dropLast = true ∧ d.isDir p = false) <| by
    constructor
    · rintro ⟨hne, hparent, hnot⟩
      refine ⟨p.dropLast, p.getLast hne, (List.dropLast_append_getLast hne).symm,
        isDir_iff.mp hparent, ?_⟩
      intro h
      rw [isDir_iff.mpr h] at hnot
      cases hnot
    · rintro ⟨q, x, rfl, hparent, hnot⟩
      refine ⟨by simp, by simpa using isDir_iff.mpr hparent, ?_⟩
      cases h : d.isDir (q ++ [x]) with
      | false => rfl
      | true => exact absurd (isDir_iff.mp h) hnot

/-- The disk that holds nothing but its root. -/
def empty : Disk ν β where
  nodes := ∅
  root := AList.notMem_empty []
  closed := fun _ _ h => absurd h (AList.notMem_empty _)

/-- The disk with the given nodes, each put where it can be. -/
def build (entries : List (List ν × Node β)) : Disk ν β :=
  entries.foldl (fun d e => if h : d.CanPut e.1 then d.put e.1 e.2 h else d) empty

/-- `mkdir`: the parent exists and the name is free. -/
def mkdir (d : Disk ν β) (p : List ν) : Option (Disk ν β) :=
  if h : d.CanPut p then
    if d.has p then none else some (d.put p .dir h)
  else none

/-- Creates a file or replaces the content of one. -/
def write (d : Disk ν β) (p : List ν) (content : β) : Option (Disk ν β) :=
  if h : d.CanPut p then some (d.put p (.file content) h) else none

theorem node_mkdir {d d' : Disk ν β} {p : List ν} (h : d.mkdir p = some d') (q : List ν) :
    d'.node q = if q = p then some .dir else d.node q := by
  unfold mkdir at h
  split at h
  · split at h
    · cases h
    · cases h
      exact node_put ..
  · cases h

theorem mkdir_fresh {d d' : Disk ν β} {p : List ν} (h : d.mkdir p = some d') : d.node p = none := by
  unfold mkdir at h
  split at h
  · split at h
    · cases h
    · rename_i hex
      exact has_eq_false_iff.mp (by simpa using hex)
  · cases h

theorem node_write {d d' : Disk ν β} {p : List ν} {c : β} (h : d.write p c = some d') (q : List ν) :
    d'.node q = if q = p then some (.file c) else d.node q := by
  unfold write at h
  split at h
  · cases h
    exact node_put ..
  · cases h

/-! ## Removing nodes -/

/-- The disk without everything at or below the paths that fail `keep`. -/
private def restrict (d : Disk ν β) (keep : List ν → Bool)
    (h : ∀ p x, keep (p ++ [x]) = true → keep p = true) : Disk ν β where
  nodes := ⟨d.nodes.entries.filter fun e => keep e.1, d.nodes.nodupKeys.sublist List.filter_sublist⟩
  root := by
    intro hmem
    obtain ⟨n, hn⟩ := List.exists_of_mem_keys hmem
    exact d.root (List.mem_keys_of_mem (List.mem_of_mem_filter hn))
  closed := by
    intro p x hmem
    obtain ⟨n, hn⟩ := List.exists_of_mem_keys hmem
    obtain ⟨hin, hkeep⟩ := List.mem_filter.mp hn
    rcases d.closed p x (List.mem_keys_of_mem hin) with hp | hp
    · exact .inl hp
    · right
      exact AList.mem_lookup_iff.mpr
        (List.mem_filter.mpr ⟨AList.mem_lookup_iff.mp hp, h p x hkeep⟩)

private theorem node_restrict (d : Disk ν β) (keep : List ν → Bool) (h) {q : List ν} (hq : q ≠ []) :
    (d.restrict keep h).node q = if keep q then d.node q else none := by
  apply Option.ext
  intro n
  rw [node_mem_entries _ hq]
  simp only [restrict, List.mem_filter, ← node_mem_entries d hq]
  cases keep q <;> simp

/-- A recursive delete that passes over what cannot be removed: the stuck nodes stay,
and the directories they lie in. The root keeps existing. -/
def eraseTree (d : Disk ν β) (p : List ν) (stuck : List ν → Bool) : Disk ν β :=
  d.restrict
    (fun q => decide (p <+: q → ∃ e ∈ d.nodes.entries, stuck e.1 = true ∧ q <+: e.1)) <| by
    intro q x h
    simp only [decide_eq_true_eq] at h ⊢
    intro hq
    obtain ⟨e, he, hstuck, hpre⟩ := h (hq.trans (List.prefix_append q [x]))
    exact ⟨e, he, hstuck, (List.prefix_append q [x]).trans hpre⟩

/-- The node is stuck, or something below it is. -/
def Held (d : Disk ν β) (stuck : List ν → Bool) (q : List ν) : Prop :=
  ∃ r, d.node r ≠ none ∧ stuck r = true ∧ q <+: r

theorem node_eraseTree_of_held {d : Disk ν β} {p q : List ν} {stuck : List ν → Bool}
    (h : p <+: q → d.Held stuck q) : (d.eraseTree p stuck).node q = d.node q := by
  by_cases hq : q = []
  · simp [hq]
  rw [eraseTree, node_restrict d _ _ hq, if_pos]
  simp only [decide_eq_true_eq]
  intro hpq
  obtain ⟨r, hr, hstuck, hpre⟩ := h hpq
  obtain ⟨n, hn⟩ := Option.ne_none_iff_exists'.mp hr
  have hne : r ≠ [] := fun h0 => hq (List.prefix_nil.mp (h0 ▸ hpre))
  exact ⟨⟨r, n⟩, (node_mem_entries d hne n).mp hn, hstuck, hpre⟩

theorem node_eraseTree_of_free {d : Disk ν β} {p q : List ν} {stuck : List ν → Bool}
    (hq : q ≠ []) (hpq : p <+: q) (h : ¬ d.Held stuck q) : (d.eraseTree p stuck).node q = none := by
  rw [eraseTree, node_restrict d _ _ hq, if_neg]
  simp only [decide_eq_true_eq]
  intro hall
  obtain ⟨⟨r, n⟩, he, hstuck, hpre⟩ := hall hpq
  have hne : r ≠ [] := fun h0 => hq (List.prefix_nil.mp (h0 ▸ hpre))
  refine h ⟨r, ?_, hstuck, hpre⟩
  rw [(node_mem_entries d hne n).mpr he]
  simp

theorem node_eraseTree_of_outside (d : Disk ν β) (stuck : List ν → Bool) {p q : List ν}
    (h : ¬ p <+: q) : (d.eraseTree p stuck).node q = d.node q :=
  node_eraseTree_of_held fun hpq => absurd hpq h

/-- Nothing changes but what the delete removes. -/
theorem node_eraseTree_cases (d : Disk ν β) (p q : List ν) (stuck : List ν → Bool) :
    (d.eraseTree p stuck).node q = d.node q ∨
      p <+: q ∧ (d.eraseTree p stuck).node q = none := by
  by_cases hq : q = []
  · simp [hq]
  by_cases hpq : p <+: q
  · by_cases h : d.Held stuck q
    · exact .inl (node_eraseTree_of_held fun _ => h)
    · exact .inr ⟨hpq, node_eraseTree_of_free hq hpq h⟩
  · exact .inl (node_eraseTree_of_outside d stuck hpq)

/-- Removes a directory or file and everything below it; the root keeps existing. -/
def removeTree (d : Disk ν β) (p : List ν) : Disk ν β :=
  d.eraseTree p fun _ => false

theorem node_removeTree (d : Disk ν β) (p : List ν) {q : List ν} (hq : q ≠ []) :
    (d.removeTree p).node q = if p <+: q then none else d.node q := by
  split
  · rename_i hpq
    exact node_eraseTree_of_free hq hpq (by simp [Held])
  · rename_i hpq
    exact node_eraseTree_of_outside d _ hpq

theorem node_removeTree_of_outside (d : Disk ν β) {p q : List ν} (h : ¬ p <+: q) :
    (d.removeTree p).node q = d.node q := by
  by_cases hq : q = []
  · simp [hq]
  · rw [node_removeTree d p hq, if_neg h]

/-- `unlink` of a file, `rmdir` of an empty directory. -/
def remove (d : Disk ν β) (p : List ν) : Option (Disk ν β) :=
  if p ≠ [] ∧ d.has p = true ∧ d.children p = [] then some (d.removeTree p) else none

theorem node_remove {d d' : Disk ν β} {p : List ν} (h : d.remove p = some d') {q : List ν}
    (hq : ¬ p <+: q) : d'.node q = d.node q := by
  unfold remove at h
  split at h
  · cases h
    exact node_removeTree_of_outside d hq
  · cases h

/-- Nothing stays at or below what was removed. -/
theorem node_remove_below {d d' : Disk ν β} {p : List ν} (h : d.remove p = some d') {q : List ν}
    (hq : p <+: q) : d'.node q = none := by
  unfold remove at h
  split at h
  · rename_i hp
    cases h
    have hne : q ≠ [] := by
      rintro rfl
      exact hp.1 (List.prefix_nil.mp hq)
    rw [node_removeTree d p hne, if_pos hq]
  · cases h

/-- There is nothing below a file. -/
theorem node_below_file {d : Disk ν β} {p q : List ν} {content : β}
    (h : d.node p = some (.file content)) (hq : p <+: q) (hne : q ≠ p) : d.node q = none := by
  obtain ⟨t, rfl⟩ := hq
  cases hn : d.node (p ++ t) with
  | none => rfl
  | some n =>
      have ht : t ≠ [] := fun ht => hne (by rw [ht, List.append_nil])
      rw [node_ancestor hn ht] at h
      cases h

/-! ## Moving a tree -/

/-- Where a move of `p` to `q` takes the path `r`. -/
def moved (p q r : List ν) : List ν :=
  if p <+: r then q ++ r.drop p.length else r

/-- A node may move to a free name of a directory outside itself. -/
def CanMove (d : Disk ν β) (p q : List ν) : Prop :=
  d.CanPut q ∧ d.node q = none ∧ p ≠ [] ∧ d.node p ≠ none ∧ ¬ p <+: q

instance (d : Disk ν β) (p q : List ν) : Decidable (d.CanMove p q) := by
  have : Decidable (d.node q = none) := decidable_of_iff (d.has q = false) has_eq_false_iff
  have : Decidable (d.node p ≠ none) :=
    decidable_of_iff (d.has p = true) (by simp [has, Option.isSome_iff_ne_none])
  unfold CanMove
  infer_instance

theorem CanMove.free_below {d : Disk ν β} {p q : List ν} (h : d.CanMove p q) {r : List ν}
    (hr : q <+: r) : d.node r = none := by
  obtain ⟨t, rfl⟩ := hr
  exact node_none_of_ancestor h.2.1

theorem moved_inj {d : Disk ν β} {p q : List ν} (h : d.CanMove p q) {r s : List ν}
    (hr : d.node r ≠ none) (hs : d.node s ≠ none) (he : moved p q r = moved p q s) : r = s := by
  have hfree : ∀ t, d.node t ≠ none → ¬ q <+: t := fun t ht hq => ht (h.free_below hq)
  unfold moved at he
  split at he
  · rename_i hpr
    split at he
    · rename_i hps
      obtain ⟨t, rfl⟩ := hpr
      obtain ⟨u, rfl⟩ := hps
      simpa using he
    · exact absurd (he ▸ List.prefix_append q _) (hfree s hs)
  · split at he
    · exact absurd (he ▸ List.prefix_append q _) (hfree r hr)
    · exact he

def move (d : Disk ν β) (p q : List ν) (h : d.CanMove p q) : Disk ν β where
  nodes :=
    ⟨d.nodes.entries.map fun e => ⟨moved p q e.1, e.2⟩, by
      rw [List.nodupKeys_iff_pairwise, List.pairwise_map]
      apply List.Pairwise.imp_of_mem _ (List.nodupKeys_iff_pairwise.mp d.nodes.nodupKeys)
      intro a b ha hb hne he
      have hnode : ∀ e ∈ d.nodes.entries, d.node e.1 ≠ none := by
        rintro ⟨r, n⟩ he
        have hr : r ≠ [] := fun h0 => d.root (h0 ▸ List.mem_keys_of_mem he)
        rw [(node_mem_entries d hr n).mpr he]
        simp
      exact hne (moved_inj h (hnode a ha) (hnode b hb) he)⟩
  root := by
    intro hmem
    obtain ⟨n, hn⟩ := List.exists_of_mem_keys hmem
    obtain ⟨⟨r, m⟩, hin, he⟩ := List.mem_map.mp hn
    have hr : r ≠ [] := fun h0 => d.root (h0 ▸ List.mem_keys_of_mem hin)
    have hq := h.1.ne_nil
    simp only [Sigma.mk.injEq, moved] at he
    split at he <;> simp_all
  closed := by
    intro s x hmem
    have hkeep : ∀ r : List ν, r ≠ [] → d.node r = some .dir → moved p q r = s →
        (⟨s, .dir⟩ : Σ _ : List ν, Node β) ∈ d.nodes.entries.map fun e => ⟨moved p q e.1, e.2⟩ := by
      intro r hr hdir he
      exact List.mem_map.mpr ⟨⟨r, .dir⟩, (node_mem_entries d hr _).mp hdir, by simp [he]⟩
    have hstay : ∀ r : List ν, ¬ p <+: r → moved p q r = r := fun r hr => by simp [moved, hr]
    obtain ⟨n, hn⟩ := List.exists_of_mem_keys hmem
    obtain ⟨⟨r, m⟩, hin, he⟩ := List.mem_map.mp hn
    have hr : r ≠ [] := fun h0 => d.root (h0 ▸ List.mem_keys_of_mem hin)
    have hnode : d.node r = some m := (node_mem_entries d hr m).mpr hin
    have he : moved p q r = s ++ [x] := congrArg Sigma.fst he
    by_cases hs : s = []
    · exact .inl hs
    right
    apply AList.mem_lookup_iff.mpr
    by_cases hpr : p <+: r
    · obtain ⟨t, rfl⟩ := hpr
      have hqt : q ++ t = s ++ [x] := by simpa [moved] using he
      cases t using List.reverseRecOn with
      | nil =>
          -- the moved node itself: its new parent was a directory outside it
          obtain ⟨q₀, y, hq, hdir, -⟩ := h.1
          rw [List.append_nil, hq] at hqt
          obtain ⟨rfl, -⟩ := List.append_inj' hqt rfl
          have hps : ¬ p <+: q₀ := fun hps => h.2.2.2.2 (hq ▸ hps.trans (List.prefix_append _ _))
          exact hkeep q₀ hs hdir (hstay q₀ hps)
      | append_singleton t y =>
          rw [← List.append_assoc] at hqt hnode
          obtain ⟨rfl, -⟩ := List.append_inj' hqt rfl
          exact hkeep (p ++ t) (by simp [h.2.2.1]) (node_parent hnode) (by simp [moved])
    · rw [hstay r hpr] at he
      subst r
      have hps : ¬ p <+: s := fun hps => hpr (hps.trans (List.prefix_append _ _))
      exact hkeep s hs (node_parent hnode) (hstay s hps)

/-- After a move the tree stands at its new place and nothing is left at the old one. -/
theorem node_move (d : Disk ν β) (p q : List ν) (h : d.CanMove p q) (r : List ν) :
    (d.move p q h).node r =
      if q <+: r then d.node (p ++ r.drop q.length) else if p <+: r then none else d.node r := by
  have hq : q ≠ [] := h.1.ne_nil
  have hp : p ≠ [] := h.2.2.1
  have hmem : ∀ s : List ν, s ≠ [] → ∀ n, ⟨s, n⟩ ∈ (d.move p q h).nodes.entries ↔
      ∃ t, t ≠ [] ∧ d.node t = some n ∧ moved p q t = s := by
    intro s hs n
    simp only [move, List.mem_map]
    constructor
    · rintro ⟨⟨t, m⟩, hin, he⟩
      cases he
      have ht : t ≠ [] := fun h0 => d.root (h0 ▸ List.mem_keys_of_mem hin)
      exact ⟨t, ht, (node_mem_entries d ht m).mpr hin, rfl⟩
    · rintro ⟨t, ht, hn, rfl⟩
      exact ⟨⟨t, n⟩, (node_mem_entries d ht n).mp hn, rfl⟩
  by_cases hr : r = []
  · simp [hr, hq, hp]
  apply Option.ext
  intro n
  rw [node_mem_entries _ hr, hmem r hr]
  constructor
  · rintro ⟨t, -, hn, rfl⟩
    by_cases hpt : p <+: t
    · obtain ⟨u, rfl⟩ := hpt
      simpa [moved] using hn
    · have hqt : ¬ q <+: t := fun hqt => by
        rw [h.free_below hqt] at hn
        cases hn
      simpa [moved, hpt, hqt] using hn
  · intro hn
    by_cases hqr : q <+: r
    · obtain ⟨u, rfl⟩ := hqr
      refine ⟨p ++ u, by simp [hp], by simpa using hn, by simp [moved]⟩
    · rw [if_neg hqr] at hn
      by_cases hpr : p <+: r
      · simp [hpr] at hn
      · rw [if_neg hpr] at hn
        exact ⟨r, hr, hn, by simp [moved, hpr]⟩

/-- `rename` onto a free name. -/
def rename (d : Disk ν β) (p q : List ν) : Option (Disk ν β) :=
  if h : d.CanMove p q then some (d.move p q h) else none

end Disk

end Storage
