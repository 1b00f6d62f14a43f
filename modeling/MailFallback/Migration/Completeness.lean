import MailFallback.Migration.CopyTree
import MailFallback.Migration.Rows
import MailFallback.Migration.Verify

/-! # Completeness of the copy

When the source is about to be removed, each of its files is at the destination with the
same bytes, provided that no start of the copy met a different file in its place. -/

namespace MailFallback

open Storage Posix Effects Job

variable {P : Db → Prop} {s s₀ t : Host} {d d' : Files} {source dest : Path} {migrationId : Id}
  {limit : ℕ}

/-! ## The copy phase -/

theorem filesless_holds (P : Db → Prop) : Filesless (Holds P) := fun _ _ hfiles h => h.files hfiles

theorem progressSpec_onProgress (hP : Blind migrationId P) :
    ProgressSpec (Holds P) (onProgress migrationId) :=
  fun copiedFiles copiedBytes _ hs => onProgress_spec hP copiedFiles copiedBytes ⟨hs, rfl⟩

/-- What is known when a copy has been verified. -/
structure Verified (source dest : Path) (d d' : Files) : Prop where
  origin : Origin source dest d d'
  copied : Copied source dest d d'
  counts : (filesBelow d' source).card = (filesBelow d' dest).card

theorem copyPhase_spec (hP : Blind migrationId P) (hs : Holds P s) :
    Safe hostStep (copyContract (Holds P) s.files)
      (fun ok s' => ok = true → Verified source dest s.files s'.files) (fun _ _ => True)
      (copyPhase limit migrationId source dest) s := by
  have hlook : ∀ {d t t'}, (copyContract (Holds P) d).crash t → t' = t →
      (copyContract (Holds P) d).crash t' := by
    rintro d t t' ht rfl
    exact ht
  have hrows : ∀ {d t t'}, (copyContract (Holds P) d).crash t → (rowsContract P t.files).crash t' →
      (copyContract (Holds P) d).crash t' := by
    rintro d t t' ht ⟨hP', hfiles⟩
    exact ⟨hP', by rw [hfiles]; exact ht.2⟩
  have hstart : (copyContract (Holds P) s.files).crash s := ⟨hs, Keeps.refl _⟩
  apply Safe.bind
  refine (prescan_spec limit source s).mono (fun _ => hlook hstart) (fun _ _ h => h) ?_
    (fun _ _ _ _ => trivial)
  rintro totals s' rfl -
  apply Safe.bind
  refine (saveMigration_spec hP ?_ ⟨hs, rfl⟩).mono (fun _ => hrows hstart) (fun _ _ h => h) ?_
    (fun _ _ _ h => h)
  · exact fun _ => ⟨rfl, rfl, rfl, rfl⟩
  rintro _ s₁ ⟨hs₁, hfiles₁⟩ -
  have hstart₁ : (copyContract (Holds P) s'.files).crash s₁ := hrows hstart ⟨hs₁, hfiles₁⟩
  apply Safe.bind
  have hcopy := copyTree_spec (filesless_holds P) (progressSpec_onProgress hP) limit source dest
    (0, 0) s₁ hs₁
  rw [hfiles₁] at hcopy
  refine hcopy.post ?_ (fun _ _ _ h => h)
  rintro counter s₂ hs₂ ⟨horigin, hcopied⟩
  apply Safe.bind
  refine (saveMigration_spec hP ?_ ⟨hs₂.1, rfl⟩).mono (fun _ => hrows hs₂) (fun _ _ h => h) ?_
    (fun _ _ _ h => h)
  · exact fun _ => ⟨rfl, rfl, rfl, rfl⟩
  rintro _ s₃ ⟨hs₃, hfiles₃⟩ -
  rw [← hfiles₃] at horigin hcopied
  have hstart₃ : (copyContract (Holds P) s'.files).crash s₃ := hrows hs₂ ⟨hs₃, hfiles₃⟩
  apply Safe.bind
  refine (checkCancel_spec ⟨hs₃, rfl⟩).mono (fun _ => hrows hstart₃) (fun _ _ h => h) ?_
    (fun _ _ _ _ => trivial)
  rintro _ s₄ - rfl
  apply Safe.bind
  refine (verifyCopy_spec limit source dest s₄).mono (fun _ => hlook hstart₃) (fun _ _ h => h) ?_
    (fun _ _ _ _ => trivial)
  rintro verdict s₅ rfl hcounts
  split
  · rename_i hok
    exact ⟨hstart₃, fun _ => ⟨horigin, hcopied, hcounts hok⟩⟩
  · apply Safe.bind
    refine (saveMigration_spec hP ?_ ⟨hs₃, rfl⟩).mono (fun _ => hrows hstart₃) (fun _ _ h => h) ?_
      (fun _ _ _ h => h)
    · exact fun _ => ⟨rfl, rfl, rfl, rfl⟩
    · exact fun _ s₆ hs₆ _ => ⟨hrows hstart₃ hs₆, nofun⟩

/-! ## Interrupted copies -/

/-- Copies that were killed one after the other, with the disks they left behind. -/
inductive Interrupted (limit : ℕ) (migrationId : Id) (source dest : Path) :
    Host → List Files → Host → Prop where
  | none {s : Host} : Interrupted limit migrationId source dest s [] s
  | killed {s s' t : Host} {p : Job (ℕ × ℕ)} {tr : List (Event HostOp HostAns Exc)}
      {disks : List Files} :
      Run hostStep (copyTree (onProgress migrationId) limit source dest (0, 0)) s tr p s' →
      Interrupted limit migrationId source dest s'.killed disks t →
      Interrupted limit migrationId source dest s (s'.files :: disks) t

/-- Every file of the source has its bytes at the same relative path of the destination. -/
def Complete (source dest : Path) (d d' : Files) : Prop :=
  ∀ r content, d.node (source ++ r) = some (.file content) →
    d'.node (dest ++ r) = some (.file content)

/-- Where the source has a file, the destination has nothing or the same bytes. -/
def Agrees (source dest : Path) (d d' : Files) : Prop :=
  ∀ r content, d.node (source ++ r) = some (.file content) →
    d'.node (dest ++ r) = none ∨ d'.node (dest ++ r) = some (.file content)

theorem Interrupted.keeps {disks : List Files}
    (h : Interrupted limit migrationId source dest s disks t) :
    ∀ d ∈ s.files :: disks, Keeps s.files d ∧ Keeps d t.files := by
  induction h with
  | none =>
      intro d hd
      rw [List.mem_singleton] at hd
      subst hd
      exact ⟨Keeps.refl _, Keeps.refl _⟩
  | @killed s s' t p tr disks hrun _ ih =>
      have hblind : Blind migrationId fun _ => True := fun _ _ _ h => h
      have hsafe := copyTree_spec (filesless_holds fun _ => True) (progressSpec_onProgress hblind)
        limit source dest (0, 0) s ⟨trivial, trivial⟩
      have hkeep : Keeps s.files s'.files := (hsafe.run hrun).crash.2
      intro d hd
      rcases List.mem_cons.mp hd with rfl | hd
      · exact ⟨Keeps.refl _, hkeep.trans (ih _ List.mem_cons_self).2⟩
      · obtain ⟨hd₁, hd₂⟩ := ih d hd
        exact ⟨hkeep.trans hd₁, hd₂⟩

theorem Interrupted.last_mem {disks : List Files}
    (h : Interrupted limit migrationId source dest s disks t) : t.files ∈ s.files :: disks := by
  induction h with
  | none => exact List.mem_cons_self
  | killed _ _ ih => exact List.mem_cons_of_mem _ ih

theorem Complete.agrees {e : Files} (h : Complete source dest d d') (he : Keeps e d') :
    Agrees source dest d e := by
  intro r content hfile
  cases hnode : e.node (dest ++ r) with
  | none => exact .inl rfl
  | some n =>
      have hn := he _ _ hnode
      rw [h r content hfile] at hn
      exact .inr hn.symm

/-- A file arrives where the copy met nothing, or found it there. -/
theorem Verified.file (h : Verified source dest d d') (hkeep : Keeps d d') {r : Path}
    {content : List UInt8} (hfile : d.node (source ++ r) = some (.file content))
    (hagree : d.node (dest ++ r) = none ∨ d.node (dest ++ r) = some (.file content)) :
    d'.node (dest ++ r) = some (.file content) := by
  obtain ⟨hne, hthere⟩ := h.copied r content hfile
  rcases hagree with hnone | hsame
  · obtain ⟨n, hn⟩ := Option.ne_none_iff_exists'.mp hthere
    rcases h.origin _ n hnone hn with ⟨hpre, -⟩ | ⟨r', hr, hn'⟩
    · exact absurd (by simpa using hpre.length_le) hne
    · obtain rfl := List.append_cancel_left hr
      rw [hkeep _ _ hfile] at hn'
      rw [hn, hn']
  · exact hkeep _ _ hsame

/-- What was killed on the way leaves a trace in the result exactly when it left a file
with other bytes than the source's. -/
theorem copyPhase_complete_iff {disks : List Files} {tr : List (Event HostOp HostAns Exc)}
    (hkilled : Interrupted limit migrationId source dest s₀ disks s)
    (hrun : Run hostStep (copyPhase limit migrationId source dest) s tr (.ret true) t) :
    Complete source dest s₀.files t.files ↔
      ∀ d ∈ s₀.files :: disks, Agrees source dest s₀.files d := by
  have hsafe : Safe hostStep (copyContract (Holds fun _ => True) s.files)
      (fun ok s' => ok = true → Verified source dest s.files s'.files) (fun _ _ => True)
      (.ret true) t :=
    (copyPhase_spec (fun _ _ _ h => h) ⟨trivial, trivial⟩).run hrun
  have hkeep : Keeps s.files t.files := hsafe.crash.2
  constructor
  · intro hcomplete d hd
    exact hcomplete.agrees ((hkilled.keeps d hd).2.trans hkeep)
  · intro hagree r content hfile
    have hstart : Keeps s₀.files s.files := (hkilled.keeps _ List.mem_cons_self).2
    have hverified : Verified source dest s.files t.files := hsafe.2 rfl
    exact hverified.file hkeep (hstart _ _ hfile) (hagree _ hkilled.last_mem r content hfile)

/-- A host on which every operation that can succeed does, and nobody cancels. -/
def smoothly : (o : HostOp) → Host → Except Exc (HostAns o)
  | .pathExists p, s => .ok (s.files.has p)
  | .isDirectory p, s => .ok (s.files.isDir p)
  | .scandir p, s => if s.files.isDir p then .ok (listing s.files p) else .error (.osError "scandir")
  | .fileSize p, s =>
      match fileContent s.files p with
      | some content => .ok content.length
      | none => .error (.osError "stat")
  | .readFile p, s =>
      match fileContent s.files p with
      | some content => .ok content
      | none => .error (.osError "open")
  | .mkdir p, s => if (s.files.mkdir p).isSome then .ok () else .error (.osError "mkdir")
  | .openWrite p, s => if (s.files.write p []).isSome then .ok () else .error (.osError "open")
  | .unlink p, s => if (s.files.remove p).isSome then .ok () else .error (.osError "unlink")
  | .rmdir p, s => if (s.files.remove p).isSome then .ok () else .error (.osError "rmdir")
  | .view, s => .ok (s.staged s.db)
  | .now, _ => .ok (0 : ℤ)
  | .cancelRequested _, _ => .ok false
  | .append .., _ | .copystat .., _ | .enterRmtree _, _ | .assign _, _ | .commit, _
  | .discardCancel _, _ => .ok ()

def oldDir : Path := [⟨"old", by decide⟩]

theorem isName_new : IsName "new" := by decide

def newDir : Path := [⟨"new", isName_new⟩]

def message : Name := ⟨"1.eml", by decide⟩

/-- One message of two bytes. -/
def oneMessage : Host where
  files := .build [(oldDir, .dir), (oldDir ++ [message], .file [1, 2])]
  db := {}

/-- Killed after the first byte, the copy takes the half message for a copied one. -/
theorem copyPhase_truncates : ¬ ∀ (limit : ℕ) (migrationId : Id) (source dest : Path)
    (s₀ s t : Host) (disks : List Files) (tr : List (Event HostOp HostAns Exc)),
    s₀.files.node source = some .dir → Interrupted limit migrationId source dest s₀ disks s →
      Run hostStep (copyPhase limit migrationId source dest) s tr (.ret true) t →
        Complete source dest s₀.files t.files := by
  intro h
  have htwice : (exec hostStep smoothly 8
      (copyTree (onProgress "g1") 10 oldDir newDir (0, 0)) oneMessage).any (fun x =>
        (exec hostStep smoothly 40 (copyPhase 10 "g1" oldDir newDir) x.2.killed).any fun y =>
          decide (y.1.returned = some true) &&
            decide (y.2.files.node (newDir ++ [message]) = some (.file [1]))) = true := by
    decide
  obtain ⟨tr, p, s', hkilled, hrest⟩ := exec_any htwice
  obtain ⟨tr', p', t, hrun, hend⟩ := exec_any hrest
  rw [Bool.and_eq_true, decide_eq_true_eq, decide_eq_true_eq] at hend
  obtain rfl : p' = .ret true := Prog.returned_eq_some hend.1
  have hcopied := h 10 "g1" oldDir newDir oneMessage s'.killed t [s'.files] tr' (by decide)
    (.killed hkilled .none) hrun [message] [1, 2] (by decide)
  rw [hend.2] at hcopied
  cases hcopied

/-- Killed before the first file is opened, the next run copies all of it. -/
theorem copyPhase_complete_after_kill : ∃ s t tr disks,
    Interrupted 10 "g1" oldDir newDir oneMessage disks s ∧
      Run hostStep (copyPhase 10 "g1" oldDir newDir) s tr (.ret true) t ∧
        Complete oldDir newDir oneMessage.files t.files := by
  have htwice : (exec hostStep smoothly 4
      (copyTree (onProgress "g1") 10 oldDir newDir (0, 0)) oneMessage).any (fun x =>
        decide (x.2.files.node (newDir ++ [message]) = none) &&
        (exec hostStep smoothly 40 (copyPhase 10 "g1" oldDir newDir) x.2.killed).any fun y =>
          decide (y.1.returned = some true)) = true := by
    decide
  obtain ⟨tr, p, s', hkilled, hrest⟩ := exec_any htwice
  rw [Bool.and_eq_true, decide_eq_true_eq] at hrest
  obtain ⟨tr', p', t, hrun, hend⟩ := exec_any hrest.2
  obtain rfl : p' = .ret true := Prog.returned_eq_some (of_decide_eq_true hend)
  refine ⟨_, t, tr', [s'.files], .killed hkilled .none, hrun, ?_⟩
  refine (copyPhase_complete_iff (.killed hkilled .none) hrun).mpr ?_
  have honly : filesBelow oneMessage.files oldDir = {oldDir ++ [message]} := by decide
  intro d hd r content hfile
  have hr : oldDir ++ r ∈ filesBelow oneMessage.files oldDir :=
    mem_filesBelow.mpr ⟨List.prefix_append _ _, content, hfile⟩
  rw [honly, Finset.mem_singleton] at hr
  obtain rfl := List.append_cancel_left hr
  rcases List.mem_cons.mp hd with rfl | hd
  · exact .inl (by decide)
  · rw [List.mem_singleton] at hd
    subst hd
    exact .inl hrest.1

end MailFallback
