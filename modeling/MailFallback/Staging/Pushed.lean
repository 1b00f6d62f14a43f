import MailFallback.Staging.Accounting

/-! # What a push hands over

Each staged message goes into the manifest of one job, or its target is named as skipped. -/

namespace MailFallback.Staging

open Storage Effects Index Snapshots Access Search StagingTask

variable {H : Type}

/-! ## The manifests -/

/-- The names under a target and a folder. -/
def namesUnder (targets : List (Id × Manifest)) (target : Id) (folder : String) : List String :=
  (((targets.find? fun t => t.1 = target).map Prod.snd).bind fun manifest =>
    manifest.get? folder).getD []

/-- The names of the messages that belong there, in the order of the rows. -/
def namesFor (destination stamp folderMode : String) (customFolder : Option String)
    (rows : List (Id × StagingMessage H)) (target : Id) (folder : String) : List String :=
  (rows.filter fun row => targetOf destination row.2 = target &&
    destinationFolder stamp folderMode customFolder row.2 = folder).map fun row => row.2.stagedFilename

theorem namesUnder_rows (targets : Table Id Manifest) (target : Id) (folder : String) :
    namesUnder targets.rows target folder =
      ((targets.get? target).bind fun manifest => manifest.get? folder).getD [] := rfl

theorem getD_addName (manifest : Manifest) (folder name folder' : String) :
    ((addName manifest folder name).get? folder').getD [] =
      (manifest.get? folder').getD [] ++ if folder' = folder then [name] else [] :=
  Table.get?_append manifest folder folder' name

theorem namesUnder_set (targets : Table Id Manifest) (target target' : Id) (folder folder' name : String) :
    namesUnder (targets.set target (addName ((targets.get? target).getD .empty) folder name)).rows
        target' folder' =
      namesUnder targets.rows target' folder' ++
        if target' = target ∧ folder' = folder then [name] else [] := by
  rw [namesUnder_rows, namesUnder_rows, Table.get?_set]
  by_cases htarget : target' = target
  · subst htarget
    rw [if_pos rfl, Option.bind_some, getD_addName]
    cases targets.get? target' with
    | none => simp
    | some manifest => simp
  · simp [htarget]

/-- The loop over the rows sorts each name under its target and its folder. -/
theorem namesUnder_byTarget (destination stamp folderMode : String) (customFolder : Option String)
    (rows : List (Id × StagingMessage H)) (target : Id) (folder : String) :
    namesUnder (byTarget destination stamp folderMode customFolder rows).rows target folder =
      namesFor destination stamp folderMode customFolder rows target folder := by
  suffices ∀ targets : Table Id Manifest,
      namesUnder (rows.foldl (fun targets row =>
        let target := targetOf destination row.2
        targets.set target (addName ((targets.get? target).getD .empty)
          (destinationFolder stamp folderMode customFolder row.2) row.2.stagedFilename))
        targets).rows target folder =
      namesUnder targets.rows target folder ++
        namesFor destination stamp folderMode customFolder rows target folder from this .empty
  induction rows with
  | nil => simp [namesFor]
  | cons row rows ih =>
      intro targets
      rw [List.foldl_cons, ih, namesUnder_set, List.append_assoc]
      congr 1
      by_cases htarget : targetOf destination row.2 = target
      · by_cases hfolder : destinationFolder stamp folderMode customFolder row.2 = folder
        · simp [namesFor, htarget, hfolder]
        · simp [namesFor, hfolder, Ne.symm hfolder]
      · simp [namesFor, htarget, Ne.symm htarget]

/-! ## The jobs -/

/-- The job that is made for a target. -/
def pushJob (user : StagingUser) (target : Id × Manifest) : RestoreJob where
  sourceAccountId := target.1
  targetAccountId := target.1
  restoreMode := .stagingPush
  requestedBy := user.id
  selectedUids := some target.2

/-- The targets in their order, each with its job if it took one. -/
abbrev Handover := List (Option Id × (Id × Manifest))

/-- The result and the rows after some of the targets. -/
structure Handed (user : StagingUser) (before after : StagingDb H) (done : List (Id × Manifest))
    (result : PushResult) (handover : Handover) : Prop where
  targets : handover.map Prod.snd = done
  jobIds : result.jobIds = handover.filterMap Prod.fst
  skipped : result.skippedTargets = (handover.filter fun h => h.1.isNone).map fun h => h.2.1
  staged : after.staged = before.staged
  areas : after.areas = before.areas
  restores : after.restores.rows = before.restores.rows ++
    handover.filterMap fun h => h.1.map fun jobId => (jobId, pushJob user h.2)

section Services

variable [DecidableEq H] {s : Session H} {time : Time} {user : StagingUser} {host : Host H}

/-- A job is made, or nothing happens. -/
theorem createRestoreJob_inserts (job : RestoreJob) (h : (always (fun _ : StagingDb H => True) time).crash s)
    (hp : s.pending = []) :
    Safe stagingMachine (always (fun _ : StagingDb H => True) time)
      (fun created t => t.pending = [] ∧ t.world.db.staged = s.world.db.staged ∧
        t.world.db.areas = s.world.db.areas ∧
        t.world.db.restores.rows = s.world.db.restores.rows ++
          (created.map fun jobId => (jobId, job)).toList)
      (fun _ _ => True) (createRestoreJob job) s := by
  unfold createRestoreJob
  apply Safe.bind
  refine view_safe h ?_ fun _ => trivial
  intro db _
  cases takesRestore db job.sourceAccountId job.targetAccountId with
  | false => exact ⟨h, hp, rfl, rfl, (List.append_nil _).symm⟩
  | true =>
      apply Safe.bind
      refine newId_safe h ?_
      intro jobId _
      apply Safe.bind
      refine stage_safe h ?_
      have hc : (always (fun _ : StagingDb H => True) time).crash
          { s with pending := s.pending ++ [.insertRestore jobId job] } := h
      apply Safe.bind
      refine commit_safe hc ?_ fun _ => trivial
      intro db' hdb'
      rw [Session.seen, hp, List.nil_append] at hdb'
      obtain ⟨v, hv, hend⟩ := Option.bind_eq_some_iff.mp hdb'
      obtain rfl := Option.some.inj hend
      simp only [StagingWrite.apply] at hv
      split at hv
      · obtain rfl := Option.some.inj hv
        refine ⟨trivial, ?_⟩
        apply Safe.bind
        exact view_safe ⟨trivial, h.2⟩ (fun _ _ => ⟨⟨trivial, h.2⟩, rfl, rfl, rfl, rfl⟩)
          fun _ => trivial
      · cases hv

theorem pushTarget_hands {before : StagingDb H} {done : List (Id × Manifest)} {result : PushResult}
    {target : Id × Manifest} (h : (always (fun _ : StagingDb H => True) time).crash s) (hp : s.pending = [])
    (hhanded : ∃ handover, Handed user before s.world.db done result handover) :
    Safe stagingMachine (always (fun _ : StagingDb H => True) time)
      (fun result t => t.pending = [] ∧
        ∃ handover, Handed user before t.world.db (done ++ [target]) result handover)
      (fun _ _ => True) (pushTarget user result target) s := by
  obtain ⟨handover, hold⟩ := hhanded
  unfold pushTarget
  apply Safe.bind
  refine (createRestoreJob_inserts (pushJob user target) h hp).post ?_ fun _ _ _ _ => trivial
  rintro created t hc ⟨hpt, hstaged, hareas, hrows⟩
  -- the target comes behind the ones before, with its job or without
  have hnew : ∀ result' : PushResult,
      result'.jobIds = result.jobIds ++ created.toList →
      result'.skippedTargets = result.skippedTargets ++ (if created.isNone then [target.1] else []) →
      ∀ u : Session H, Same t u → ∃ handover',
        Handed user before u.world.db (done ++ [target]) result' handover' := by
    intro result' hjobs hskipped u hu
    refine ⟨handover ++ [(created, target)], ?_, ?_, ?_, ?_, ?_, ?_⟩
    · simp [hold.targets]
    · rw [hjobs, hold.jobIds, List.filterMap_append]
      cases created <;> rfl
    · rw [hskipped, hold.skipped, List.filter_append, List.map_append]
      cases created <;> rfl
    · rw [hu.db, hstaged, hold.staged]
    · rw [hu.db, hareas, hold.areas]
    · rw [hu.db, hrows, hold.restores, List.filterMap_append, List.append_assoc]
      cases created <;> rfl
  cases created with
  | none => exact ⟨hc, hpt, hnew { result with skippedTargets := result.skippedTargets ++ [target.1] }
        (List.append_nil _).symm rfl t (.refl t)⟩
  | some jobId =>
      apply Safe.bind
      refine (offline_safe (op_only rfl) hc).post ?_ fun _ _ _ _ => trivial
      exact fun _ u hcu hu => ⟨hcu, hu.pending.trans hpt,
        hnew { result with jobIds := result.jobIds ++ [jobId] } rfl (List.append_nil _).symm u hu⟩

def StagingWrite.ofRestore : StagingWrite H → Bool
  | .insertRestore .. | .changeRestore .. => true
  | _ => false

omit [DecidableEq H] in
theorem restores_apply {db db' : StagingDb H} {w : StagingWrite H} (hw : w.ofRestore = false)
    (h : w.apply db = some db') : db'.restores = db.restores := by
  cases w with
  | insertRestore | changeRestore => cases hw
  | insertArea id area =>
      simp only [StagingWrite.apply, StagingDb.insertArea] at h
      split at h
      · exact Option.some.inj h ▸ rfl
      · cases h
  | insertMessage id message =>
      simp only [StagingWrite.apply, StagingDb.insertMessage] at h
      split at h
      · exact Option.some.inj h ▸ rfl
      · cases h
  | deleteArea id => exact Option.some.inj h ▸ rfl
  | deleteMessage id => exact Option.some.inj h ▸ rfl
  | setBytesUsed id bytes =>
      obtain ⟨-, h⟩ := Option.ite_none_right_eq_some.mp h
      exact Option.some.inj h ▸ rfl
  | renameStaged id name =>
      obtain ⟨-, h⟩ := Option.ite_none_right_eq_some.mp h
      exact Option.some.inj h ▸ rfl

omit [DecidableEq H] in
theorem flushed_restores {db db' : StagingDb H} {ws : List (StagingWrite H)}
    (hws : ∀ w ∈ ws, w.ofRestore = false) (h : flushed db ws = some db') :
    db'.restores = db.restores := by
  induction ws generalizing db with
  | nil =>
      obtain rfl := Option.some.inj h
      rfl
  | cons w ws ih =>
      obtain ⟨v, hv, hrest⟩ := Option.bind_eq_some_iff.mp h
      rw [ih (fun w hw => hws w (.tail _ hw)) hrest]
      exact restores_apply (hws w (.head _)) hv

omit [DecidableEq H] in
theorem reconcileRows_writes (names : Table String String) (rows : List (Id × StagingMessage H))
    {found : Findings H} (h : ∀ w ∈ found.writes, w.ofRestore = false) :
    ∀ w ∈ (rows.foldl (reconcileRow names) found).writes, w.ofRestore = false := by
  induction rows generalizing found with
  | nil => exact h
  | cons row rows ih =>
      refine ih ?_
      intro w hw
      unfold reconcileRow at hw
      split at hw
      · rcases List.mem_append.mp hw with hw | hw
        · exact h w hw
        · rw [List.mem_singleton.mp hw]
          rfl
      · split at hw
        · exact h w hw
        · rcases List.mem_append.mp hw with hw | hw
          · exact h w hw
          · rw [List.mem_singleton.mp hw]
            rfl

/-- Nothing is pending after `reconcile`, and it makes no restore job. -/
theorem reconcile_quiet {row : Id × StagingArea} (h : (always (fun _ : StagingDb H => True) time).crash s)
    (hp : s.pending = []) :
    Safe stagingMachine (always (fun _ : StagingDb H => True) time)
      (fun _ t => t.pending = [] ∧ t.world.db.restores = s.world.db.restores)
      (fun _ _ => True) (reconcile user row) s := by
  unfold reconcile
  apply Safe.bind
  refine (offline_safe (adopted_offline user) h).post ?_ fun _ _ _ _ => trivial
  intro adopted t hc ht
  cases adopted with
  | false => exact ⟨hc, ht.pending.trans hp, by rw [ht.db]⟩
  | true =>
      apply Safe.bind
      refine (offline_safe (onDisk_offline (stagingDir user)) hc).post ?_ fun _ _ _ _ => trivial
      intro names u hcu htu
      have hsame := ht.trans htu
      have hpu : u.pending = [] := hsame.pending.trans hp
      apply Safe.bind
      refine stagedRows_safe hcu ?_ fun _ => trivial
      intro rows db hseen hrows
      obtain rfl : u.world.db = db := Option.some.inj ((seen_of_nil hpu).symm.trans hseen)
      obtain ⟨v, hv⟩ := reconciled hrows names
      dsimp only
      split
      · apply Safe.bind
        refine stage_safe hcu ?_
        apply Safe.bind
        refine commit_safe hcu ?_ fun _ => trivial
        intro db' hdb'
        rw [Session.seen, hpu, List.nil_append, flushed_append, hv.flushed, Option.bind_some] at hdb'
        have hplain : ∀ w ∈ (rows.foldl (reconcileRow names) {}).writes ++
            [.setBytesUsed row.1 (rows.foldl (reconcileRow names) {}).total],
            w.ofRestore = false := by
          intro w hw
          rcases List.mem_append.mp hw with hw | hw
          · exact reconcileRows_writes names rows (fun _ h => absurd h List.not_mem_nil) w hw
          · rw [List.mem_singleton.mp hw]
            rfl
        have hkept := flushed_restores hplain (by rw [flushed_append, hv.flushed]; exact hdb')
        exact ⟨trivial, ⟨trivial, hcu.2⟩, rfl, hkept.trans (by rw [hsame.db])⟩
      · exact ⟨hcu, hpu, by rw [hsame.db]⟩

/-- What a push has handed over: each name under its target and its folder, once. -/
structure HandedOver (user : StagingUser) (before after : StagingDb H) (names : Id → String → List String)
    (result : PushResult) (handover : Handover) : Prop where
  targets : (handover.map fun h => h.2.1).Nodup
  names : ∀ target folder, namesUnder (handover.map Prod.snd) target folder = names target folder
  jobIds : result.jobIds = handover.filterMap Prod.fst
  skipped : result.skippedTargets = (handover.filter fun h => h.1.isNone).map fun h => h.2.1
  restores : after.restores.rows = before.restores.rows ++
    handover.filterMap fun h => h.1.map fun jobId => (jobId, pushJob user h.2)

theorem push_hands {destination folderMode : String} {customFolder : Option String}
    (h : (always (fun _ : StagingDb H => True) time).crash s) (hp : s.pending = []) :
    Safe stagingMachine (always (fun _ : StagingDb H => True) time)
      (fun result t =>
        (((areaOf s.world.db user.id).all fun area => decide (area.2.expiresAt ≤ time)) = true ∧
          result = {} ∧ t.world.db = s.world.db) ∨
        ∃ area handover rows, areaOf s.world.db user.id = some area ∧
          rows.Perm (stagedOf t.world.db area.1) ∧
          HandedOver user s.world.db t.world.db
            (namesFor destination (host.day time) folderMode customFolder rows) result handover)
      (fun _ _ => True) (push host user destination folderMode customFolder) s := by
  unfold push
  split
  · exact ⟨h, trivial⟩
  · apply Safe.bind
    refine view_safe h ?_ fun _ => trivial
    intro db hseen
    obtain rfl : s.world.db = db := Option.some.inj ((seen_of_nil hp).symm.trans hseen)
    cases hrow : areaOf s.world.db user.id with
    | none => exact ⟨h, .inl ⟨rfl, rfl, rfl⟩⟩
    | some area =>
        apply Safe.bind
        refine isExpired_safe h ?_
        cases hexpired : decide (area.2.expiresAt ≤ time) with
        | true => exact ⟨h, .inl ⟨hexpired, rfl, rfl⟩⟩
        | false =>
            apply Safe.bind
            refine (reconcile_quiet h hp).post ?_ fun _ _ _ _ => trivial
            rintro _ t hc ⟨hpt, hrestores⟩
            apply Safe.bind
            refine stagedRows_safe hc ?_ fun _ => trivial
            intro rows db hseen hrows
            obtain rfl : t.world.db = db := Option.some.inj ((seen_of_nil hpt).symm.trans hseen)
            have hnone : Handed user t.world.db t.world.db [] {} [] :=
              ⟨rfl, rfl, rfl, rfl, rfl, (List.append_nil _).symm⟩
            have hover : ∀ {u : Session H} {result : PushResult} {handover : Handover},
                Handed user t.world.db u.world.db
                  (byTarget destination (host.day time) folderMode customFolder rows).rows result
                  handover → rows.Perm (stagedOf u.world.db area.1) ∧
                HandedOver user s.world.db u.world.db
                  (namesFor destination (host.day time) folderMode customFolder rows) result
                  handover := by
              intro u result handover hh
              refine ⟨?_, ?_, ?_, hh.jobIds, hh.skipped, ?_⟩
              · rwa [stagedOf, hh.staged]
              · have hkeys : (handover.map fun h => h.2.1) = (handover.map Prod.snd).map Prod.fst := by
                  rw [List.map_map]
                  rfl
                rw [hkeys, hh.targets]
                exact (byTarget destination (host.day time) folderMode customFolder rows).nodup
              · intro target folder
                rw [hh.targets]
                exact namesUnder_byTarget ..
              · rw [hh.restores, hrestores]
            cases rows with
            | nil =>
                obtain ⟨hperm, hall⟩ := hover (u := t) hnone
                exact ⟨hc, .inr ⟨area, [], [], rfl, hperm, hall⟩⟩
            | cons first rest =>
                apply Safe.bind
                refine now_safe hc ?_
                refine (Safe.foldlM (fun done result u => u.pending = [] ∧
                  ∃ handover, Handed user t.world.db u.world.db done result handover) _
                  ⟨hpt, [], hnone⟩ hc ?_).post ?_ fun _ _ _ h => h
                · rintro done target rest' result u - hcu ⟨hpu, hhanded⟩
                  exact pushTarget_hands hcu hpu hhanded
                · rintro result u - ⟨-, handover, hhanded⟩
                  obtain ⟨hperm, hall⟩ := hover hhanded
                  exact .inr ⟨area, handover, first :: rest, rfl, hperm, hall⟩

end Services

/-- A push that returns has put every staged message that `reconcile` left under its target and
its folder exactly once; each target has one job of its own or is named as skipped, and no other
restore job was made. -/
theorem push_conserves [DecidableEq H] {host : Host H} {user : StagingUser} {s t : Session H}
    {destination folderMode : String} {customFolder : Option String} {result : PushResult}
    {tr : List (Event (StagingOp H) (StagingAns H) Failure)} (hp : s.pending = [])
    (hrun : Run stagingMachine (push host user destination folderMode customFolder) s tr
      (.ret result) t) :
    (((areaOf s.world.db user.id).all fun area => decide (area.2.expiresAt ≤ s.world.now)) = true ∧
      result = {} ∧ t.world.db = s.world.db) ∨
    ∃ area handover rows, areaOf s.world.db user.id = some area ∧
      rows.Perm (stagedOf t.world.db area.1) ∧
      HandedOver user s.world.db t.world.db
        (namesFor destination (host.day s.world.now) folderMode customFolder rows) result handover :=
  ((push_hands ⟨trivial, rfl⟩ hp).run hrun).2

/-! ## One staged message -/

def stagedDb : StagingDb String := { sampleStagingDb with
  areas := ⟨[("i1", { userId := "u1", expiresAt := 9, bytesUsed := 3 })], by decide⟩
  staged := ⟨[("m1", {
    stagingId := "i1"
    sourceAccountId := "a1"
    messageIdHash := "h1"
    originalFolder := "INBOX"
    stagedFilename := "f1"
    sizeBytes := 3 })], by decide⟩
  areaUsers := by
    intro i j a b ha hb _
    have ha := Table.mem_rows.mpr ha
    have hb := Table.mem_rows.mpr hb
    simp only [List.mem_singleton, Prod.mk.injEq] at ha hb
    rw [ha.1, hb.1]
  stagedAreas := by
    intro i m hm
    have hm := Table.mem_rows.mpr hm
    simp only [List.mem_singleton, Prod.mk.injEq] at hm
    rw [hm.2]
    rfl }

def pushingUser : StagingUser := ⟨"u1", Access.sampleUser, "/mail"⟩

def stagedWorld : World String where
  db := stagedDb
  disk := (Maildirs.makedirs .empty (stagingDir pushingUser) .cur).put ⟨stagingDir pushingUser, .cur, "f1"⟩
    [1, 2, 3]

theorem push_conserves_one : ∃ tr result t,
    Run stagingMachine (push sampleHost pushingUser "origin" "original" none) ⟨stagedWorld, []⟩ tr
      (.ret result) t ∧ result.jobIds.length = 1 ∧
    ∃ (handover : Handover) (rows : List (Id × StagingMessage String)),
      HandedOver pushingUser stagedDb t.world.db
      (namesFor "origin" "2026-01-02" "original" none rows) result handover := by
  have hexec : (exec stagingMachine (fun o s => ordinary sampleRow [1, 2, 3] s o) 60
      (push sampleHost pushingUser "origin" "original" none) ⟨stagedWorld, []⟩).any (fun r =>
        r.1.returned.any fun result => decide (result.jobIds.length = 1)) = true := by decide +kernel
  obtain ⟨tr, p, t, hrun, h⟩ := exec_any hexec
  obtain ⟨result, hresult, hjobs⟩ := (Option.any_eq_true ..).mp h
  obtain rfl := Prog.returned_eq_some hresult
  have hone : result.jobIds.length = 1 := of_decide_eq_true hjobs
  refine ⟨tr, result, t, hrun, hone, ?_⟩
  rcases push_conserves rfl hrun with ⟨-, rfl, -⟩ | ⟨-, handover, rows, -, -, hhanded⟩
  · cases hone
  · exact ⟨handover, rows, hhanded⟩

end MailFallback.Staging
