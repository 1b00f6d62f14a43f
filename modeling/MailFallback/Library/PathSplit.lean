import MailFallback.Library.PathLookup
import MailFallback.Library.PyString

/-! # Taking path strings apart

`split` and `commonpath` of Python's `posixpath`, which work on the text alone. -/

namespace Posix

/-- `posixpath.split`: what stands before and after the last slash. The slashes at the end of the
head go, unless it consists of slashes. -/
def split (p : String) : String × String :=
  let head := String.ofList (p.toList.rdropWhile (· ≠ '/'))
  (if rstripSlash head = "" then head else rstripSlash head,
    String.ofList (p.toList.rtakeWhile (· ≠ '/')))

def basename (p : String) : String := (split p).2

def dirname (p : String) : String := (split p).1

/-- The pieces that `commonpath` compares. -/
def components (p : String) : List String := (pieces p).filter fun c => c ≠ "" ∧ c ≠ "."

def commonPrefix {α : Type*} [DecidableEq α] : List α → List α → List α
  | a :: as, b :: bs => if a = b then a :: commonPrefix as bs else []
  | _, _ => []

def joined (absolute : Bool) (parts : List String) : String :=
  (if absolute = true then "/" else "") ++ "/".intercalate parts

/-- `posixpath.commonpath`; `none` for a mixture of absolute and relative paths. -/
def commonpath : List String → Option String
  | [] => none
  | p :: ps =>
      if ps.all (fun q => isAbsolute q == isAbsolute p) = true then
        some (joined (isAbsolute p) (ps.foldl (fun common q => commonPrefix common (components q))
          (components p)))
      else none

/-! ## Slashes at the end -/

theorem rstripSlash_of_last {s : String} {c : Char} (h : s.toList.getLast? = some c) (hc : c ≠ '/') :
    rstripSlash s = s := by
  obtain ⟨l, hl⟩ := List.getLast?_eq_some_iff.mp h
  unfold rstripSlash
  rw [hl, List.rdropWhile_concat_neg]
  · rw [← hl, String.ofList_toList]
  · simpa using hc

/-- What comes off the end of the last part. -/
theorem rstripSlash_append (a b : String) :
    rstripSlash (a ++ b) = if rstripSlash b = "" then rstripSlash a else a ++ rstripSlash b := by
  unfold rstripSlash
  rw [String.toList_append, List.rdropWhile, List.reverse_append, List.dropWhile_append]
  by_cases h : (b.toList.reverse.dropWhile (· == '/')) = []
  · rw [h]
    simp [List.rdropWhile, h]
  · have hne : String.ofList (b.toList.rdropWhile (· == '/')) ≠ "" := by
      intro hempty
      apply h
      have hnil := congrArg String.toList hempty
      rw [String.toList_ofList] at hnil
      exact List.reverse_eq_nil_iff.mp hnil
    rw [if_neg hne, if_neg (by simpa using h)]
    apply String.toList_injective
    simp [List.rdropWhile]

theorem length_rstripSlash_le (s : String) : (rstripSlash s).length ≤ s.length := by
  obtain ⟨n, hn⟩ := exists_rstripSlash s
  have hlength := congrArg List.length hn
  simp only [List.length_append, List.length_replicate, String.length_toList] at hlength
  omega

theorem mem_pieces_rstripSlash {s q : String} (h : q ∈ pieces (rstripSlash s)) : q ∈ pieces s := by
  obtain ⟨n, hn⟩ := exists_rstripSlash s
  have hs : s = String.ofList ((rstripSlash s).toList ++ List.replicate n '/') := by
    rw [← hn, String.ofList_toList]
  rw [hs]
  clear hs hn
  generalize rstripSlash s = r at h
  induction n with
  | zero => simpa using h
  | succ n ih =>
      have hsucc : String.ofList (r.toList ++ List.replicate (n + 1) '/') =
          String.ofList (r.toList ++ List.replicate n '/') ++ "/" ++ "" := by
        apply String.toList_injective
        simp [List.replicate_succ']
      rw [hsucc, pieces_append_slash]
      exact List.mem_append_left _ ih

/-! ## The last piece -/

/-- A string is its head, a slash and a piece, or a piece. -/
theorem split_append {a t : String} (ht : '/' ∉ t.toList) :
    split (a ++ "/" ++ t) =
      (if rstripSlash a = "" then a ++ "/" else rstripSlash a, t) := by
  have hall : ∀ c ∈ t.toList, c ≠ '/' := fun c hc heq => ht (heq ▸ hc)
  have htake : (a ++ "/" ++ t).toList.rtakeWhile (· ≠ '/') = t.toList := by
    rw [String.toList_append, List.rtakeWhile, List.reverse_append,
      List.takeWhile_append_of_pos (by simpa using fun c hc => hall c hc)]
    simp
  have hdrop : (a ++ "/" ++ t).toList.rdropWhile (· ≠ '/') = (a ++ "/").toList := by
    rw [String.toList_append, List.rdropWhile, List.reverse_append,
      List.dropWhile_append_of_pos (by simpa using fun c hc => hall c hc)]
    simp
  have hstrip : rstripSlash (a ++ "/") = rstripSlash a := by
    rw [rstripSlash_append, if_pos (by decide)]
  unfold split
  rw [htake, hdrop, String.ofList_toList, String.ofList_toList]
  dsimp only
  rw [hstrip]

theorem exists_last_piece (s : String) :
    '/' ∉ s.toList ∨ ∃ a t, s = a ++ "/" ++ t ∧ '/' ∉ t.toList := by
  by_cases h : '/' ∈ s.toList
  · right
    refine ⟨String.ofList (s.toList.rdropWhile (· ≠ '/')).dropLast,
      String.ofList (s.toList.rtakeWhile (· ≠ '/')), ?_, ?_⟩
    · have hne : s.toList.rdropWhile (· ≠ '/') ≠ [] := by
        intro hnil
        have hall := List.rdropWhile_eq_nil_iff.mp hnil
        simpa using hall '/' h
      have hlast : (s.toList.rdropWhile (· ≠ '/')).getLast hne = '/' := by
        have hnot := List.rdropWhile_last_not (· ≠ '/') s.toList hne
        simpa using hnot
      have hsplit := List.dropLast_append_getLast hne
      rw [hlast] at hsplit
      apply String.toList_injective
      simp only [String.toList_append, String.toList_ofList]
      rw [show "/".toList = ['/'] from rfl, hsplit, List.rdropWhile_append_rtakeWhile]
    · intro hmem
      rw [String.toList_ofList] at hmem
      have hne := List.mem_rtakeWhile_imp hmem
      simp at hne
  · exact .inl h

/-! ## Components -/

variable {s p q root common : String} {ps parts cp more : List String}

theorem mem_components : q ∈ components s ↔ q ∈ pieces s ∧ q ≠ "" ∧ q ≠ "." := by
  simp [components]

theorem slash_not_mem_piece (h : q ∈ pieces s) : '/' ∉ q.toList := by
  induction hn : s.length using Nat.strong_induction_on generalizing s with
  | h n ih =>
      rcases exists_last_piece s with hslash | ⟨a, t, rfl, hslash⟩
      · rw [pieces_of_not_mem hslash, List.mem_singleton] at h
        rwa [h]
      · rw [pieces_append_slash, List.mem_append, pieces_of_not_mem hslash] at h
        rcases h with h | h
        · have hone : "/".length = 1 := by decide
          refine ih a.length ?_ h rfl
          simp only [String.length_append, hone] at hn
          omega
        · rwa [List.mem_singleton.mp h]

theorem components_append_slash (a b : String) :
    components (a ++ "/" ++ b) = components a ++ components b := by
  unfold components
  rw [pieces_append_slash, List.filter_append]

theorem components_rstripSlash (s : String) : components (rstripSlash s) = components s := by
  obtain ⟨n, hn⟩ := exists_rstripSlash s
  have hs : s = String.ofList ((rstripSlash s).toList ++ List.replicate n '/') := by
    rw [← hn, String.ofList_toList]
  conv_rhs => rw [hs]
  clear hs hn
  generalize rstripSlash s = r
  induction n with
  | zero => simp
  | succ n ih =>
      have hsucc : String.ofList (r.toList ++ List.replicate (n + 1) '/') =
          String.ofList (r.toList ++ List.replicate n '/') ++ "/" ++ "" := by
        apply String.toList_injective
        simp [List.replicate_succ']
      have hempty : components "" = [] := by decide
      rw [hsucc, components_append_slash, ← ih, hempty, List.append_nil]

theorem components_dirname_initial (p : String) : components (dirname p) <+: components p := by
  unfold dirname
  rcases exists_last_piece p with hslash | ⟨a, t, rfl, hslash⟩
  · have hall : ∀ c ∈ p.toList, c ≠ '/' := fun c hc heq => hslash (heq ▸ hc)
    have hhead : p.toList.rdropWhile (· ≠ '/') = [] := by
      rw [List.rdropWhile_eq_nil_iff]
      simpa using hall
    have hempty : (split p).1 = "" := by
      have hstrip : rstripSlash (String.ofList []) = "" := by decide
      unfold split
      rw [hhead]
      dsimp only
      rw [hstrip, if_pos rfl]
    rw [hempty]
    exact List.nil_prefix
  · have hnil : components "" = [] := by decide
    have hsame : components (split (a ++ "/" ++ t)).1 = components a := by
      rw [split_append hslash]
      split
      · have happ : a ++ "/" = a ++ "/" ++ "" := by simp
        rw [happ, components_append_slash, hnil, List.append_nil]
      · exact components_rstripSlash a
    rw [hsame, components_append_slash]
    exact List.prefix_append ..

/-- A join with a string that does not begin with a slash, behind one that does not end in one. -/
theorem join_of_rstripSlash {s b : String} (hs : rstripSlash s = s) (hne : s ≠ "")
    (hb : isAbsolute b = false) : join s b = s ++ "/" ++ b := by
  rcases join_relative hb hne with ⟨a, ha, -⟩ | hjoin
  · have hlen := length_rstripSlash_le a
    have hone : "/".length = 1 := by decide
    rw [ha, rstripSlash_append, if_pos (by decide)] at hs
    have hlength := congrArg String.length hs
    rw [String.length_append, hone] at hlength
    omega
  · exact hjoin

/-! ## Common paths -/

theorem commonPrefix_initial {α : Type*} [DecidableEq α] (l m : List α) :
    commonPrefix l m <+: l ∧ commonPrefix l m <+: m := by
  induction l generalizing m with
  | nil => exact ⟨List.nil_prefix, List.nil_prefix⟩
  | cons a l ih =>
      cases m with
      | nil => exact ⟨List.nil_prefix, List.nil_prefix⟩
      | cons b m =>
          unfold commonPrefix
          split
          · rename_i hab
            subst hab
            exact ⟨List.prefix_cons_inj a |>.mpr (ih m).1, List.prefix_cons_inj a |>.mpr (ih m).2⟩
          · exact ⟨List.nil_prefix, List.nil_prefix⟩

theorem foldl_commonPrefix_initial (init : List String) (ps : List String) :
    ps.foldl (fun common q => commonPrefix common (components q)) init <+: init := by
  induction ps generalizing init with
  | nil => exact List.prefix_rfl
  | cons q ps ih => exact (ih _).trans (commonPrefix_initial _ _).1

/-- The pieces of a normal path. -/
def Parts (parts : List String) : Prop := ∀ q ∈ parts, q ≠ "" ∧ q ≠ "." ∧ '/' ∉ q.toList

theorem parts_components (s : String) : Parts (components s) := fun _ h =>
  ⟨(mem_components.mp h).2.1, (mem_components.mp h).2.2, slash_not_mem_piece (mem_components.mp h).1⟩

theorem Parts.subset (h : Parts parts) (hsub : ∀ q ∈ more, q ∈ parts) : Parts more :=
  fun q hq => h q (hsub q hq)

theorem pieces_intercalate (h : Parts parts) (hne : parts ≠ []) :
    pieces ("/".intercalate parts) = parts := by
  induction parts with
  | nil => exact absurd rfl hne
  | cons q parts ih =>
      have hq := (h q List.mem_cons_self).2.2
      cases parts with
      | nil => rw [String.intercalate_singleton, pieces_of_not_mem hq]
      | cons r parts =>
          have hrest := ih (h.subset fun _ => List.mem_cons_of_mem _) (by simp)
          rw [String.intercalate_cons_cons, pieces_append_slash, pieces_of_not_mem hq, hrest]
          rfl

theorem components_joined (b : Bool) (h : Parts parts) : components (joined b parts) = parts := by
  have hall : parts.filter (fun c => c ≠ "" ∧ c ≠ ".") = parts := by
    rw [List.filter_eq_self]
    intro q hq
    simpa using ⟨(h q hq).1, (h q hq).2.1⟩
  have hrest : components ("/".intercalate parts) = parts := by
    by_cases hne : parts = []
    · subst hne
      decide
    · rw [components, pieces_intercalate h hne, hall]
  unfold joined
  cases b with
  | false => simpa using hrest
  | true =>
      have happ : (if true = true then "/" else "") ++ "/".intercalate parts =
          "" ++ "/" ++ "/".intercalate parts := by simp
      have hempty : components "" = [] := by decide
      rw [happ, components_append_slash, hempty, List.nil_append, hrest]

theorem joined_append (b : Bool) (hcp : cp ≠ []) (hmore : more ≠ []) :
    joined b (cp ++ more) = joined b cp ++ "/" ++ "/".intercalate more := by
  unfold joined
  rw [String.intercalate_append_of_ne_nil hcp hmore]
  simp only [String.append_assoc]

theorem isAbsolute_joined (b : Bool) (h : Parts parts) (hne : parts ≠ []) :
    isAbsolute (joined b parts) = b := by
  cases b with
  | true => simp [joined, isAbsolute]
  | false =>
      cases parts with
      | nil => exact absurd rfl hne
      | cons q parts =>
          obtain ⟨hempty, -, hslash⟩ := h q List.mem_cons_self
          cases hchars : q.toList with
          | nil => exact absurd (by simpa using hchars) hempty
          | cons c cs =>
              have hc : c ≠ '/' := fun heq => hslash (hchars ▸ heq ▸ List.mem_cons_self)
              cases parts with
              | nil => simp [joined, isAbsolute, String.intercalate_singleton, hchars, hc]
              | cons r parts =>
                  simp [joined, isAbsolute, String.intercalate_cons_cons, hchars, hc]

/-- A common path that lies in the tree below `root` is `root` or leads on from it, by components
of the first path. -/
theorem commonpath_below (hps : commonpath (p :: ps) = some common)
    (hroot : commonpath [common, root] = some root) (hne : components root ≠ []) :
    ∃ more, components root ++ more <+: components p ∧
      (common = root ∨ more ≠ [] ∧ common = root ++ "/" ++ "/".intercalate more) := by
  obtain ⟨-, hcommon⟩ := Option.ite_none_right_eq_some.mp hps
  obtain rfl := Option.some.inj hcommon
  obtain ⟨-, hshared⟩ := Option.ite_none_right_eq_some.mp hroot
  have hshared := Option.some.inj hshared
  generalize hparts : ps.foldl (fun common q => commonPrefix common (components q)) (components p) =
    parts at hshared
  have hpre : parts <+: components p := hparts ▸ foldl_commonPrefix_initial _ _
  have hnormal : Parts parts := (parts_components p).subset fun _ h => hpre.subset h
  rw [List.foldl_cons, List.foldl_nil, components_joined _ hnormal] at hshared
  -- what is shared has the components of the root, so they come first
  have hcp := (commonPrefix_initial parts (components root)).1
  have hsame : commonPrefix parts (components root) = components root := by
    have hjoined := components_joined (isAbsolute (joined (isAbsolute p) parts))
      (hnormal.subset fun _ h => hcp.subset h)
    rw [hshared] at hjoined
    exact hjoined.symm
  rw [hsame] at hcp hshared
  obtain ⟨more, rfl⟩ := hcp
  rw [isAbsolute_joined _ hnormal (by simp [hne])] at hshared
  refine ⟨more, hpre, ?_⟩
  by_cases hmore : more = []
  · left
    rw [hmore, List.append_nil, hshared]
  · exact .inr ⟨hmore, by rw [joined_append _ hne hmore, hshared]⟩

/-! ## The strings of a walk -/

/-- `os.walk` joins the names of the directories on the way. -/
def walked (top : String) (names : List Name) : String :=
  names.foldl (fun top x => join top x.1) top

theorem rstripSlash_name (x : Name) : rstripSlash x.1 = x.1 := by
  have hne : x.1.toList ≠ [] := by simpa using x.2.1
  apply rstripSlash_of_last (c := x.1.toList.getLast hne)
  · exact List.getLast?_eq_getLast_of_ne_nil hne
  · exact fun heq => x.2.2.2.2 (heq ▸ List.getLast_mem hne)

theorem parts_texts (names : List Name) : Parts (texts names) := by
  intro q hq
  obtain ⟨x, -, rfl⟩ := List.mem_map.mp hq
  exact ⟨x.2.1, x.2.2.1, x.2.2.2.2⟩

theorem walked_eq {top : String} (htop : rstripSlash top = top) (hne : top ≠ "")
    {names : List Name} (hnames : names ≠ []) :
    walked top names = top ++ "/" ++ "/".intercalate (texts names) := by
  induction names generalizing top with
  | nil => exact absurd rfl hnames
  | cons x names ih =>
      have hjoin := join_of_rstripSlash htop hne (isAbsolute_name x)
      cases names with
      | nil => simpa [walked, texts] using hjoin
      | cons y names =>
          have hlast : rstripSlash (top ++ "/" ++ x.1) = top ++ "/" ++ x.1 := by
            rw [rstripSlash_append, rstripSlash_name, if_neg x.2.1]
          have hlonger : top ++ "/" ++ x.1 ≠ "" := by
            intro hempty
            have hlength := congrArg String.length hempty
            have hone : "/".length = 1 := by decide
            simp only [String.length_append, hone, String.length_empty] at hlength
            omega
          have hrest := ih hlast hlonger (by simp)
          have hstep : walked top (x :: y :: names) = walked (join top x.1) (y :: names) := rfl
          rw [hstep, hjoin, hrest, texts_cons x, texts_cons y, String.intercalate_cons_cons]
          simp only [String.append_assoc]

end Posix
