import MailFallback.Library.Transition
import MailFallback.Migration.Homes
import Mathlib.Logic.Function.Basic

/-! # The home store among the allowed ones

`set_allowed_stores` refuses to leave out the store of the home. `update_user` and a migration
of the home write the store without a look at the allowed ones. -/

namespace MailFallback.AllowedStores

open Storage Posix Effects Transition

/-- The rows and the disk, and the table `user_allowed_stores`. -/
structure World where
  db : Db
  files : Files
  allowed : Id → List Id

/-! ## The services -/

/-- The allowed stores afterwards, and the complaint. A user who is not there is passed over. -/
def setAllowedStores (db : Db) (allowed : Id → List Id) (userId : Id) (storeIds : List Id) :
    (Id → List Id) × Option String :=
  match db.users.get? userId with
  | none => (allowed, none)
  | some user =>
      if user.migrating = true then
        (allowed, some "Cannot change stores while migration is in progress")
      else
        let stores := db.stores.keys.filter fun id => storeIds.contains id
        if user.storeId ≠ "" ∧ user.storeId ∉ stores then
          (allowed, some "Cannot remove the user's current home store — migrate the user first")
        else (Function.update allowed userId stores, none)

/-- `_backfill_allowed_stores` for one user. -/
def backfillUser (db : Db) (allowed : Id → List Id) (row : Id × User) : Id → List Id :=
  if allowed row.1 = [] then (setAllowedStores db allowed row.1 [row.2.storeId]).1 else allowed

def backfillAllowedStores (db : Db) (allowed : Id → List Id) : Id → List Id :=
  db.users.rows.foldl (backfillUser db) allowed

/-- The keyword arguments of `update_user` that it writes. -/
structure UserChanges where
  username : Option String := none
  role : Option UserRole := none
  enabled : Option Bool := none
  storeId : Option Id := none

/-- The row with the changes; the store stays while the home is moved. -/
def UserChanges.apply (changes : UserChanges) (user : User) : User :=
  { user with
    username := changes.username.getD user.username
    role := changes.role.getD user.role
    enabled := changes.enabled.getD user.enabled
    storeId := if user.migrating = true then user.storeId else changes.storeId.getD user.storeId }

/-- The database refuses a name that is taken and a store that is not there. -/
def refuses (db : Db) (userId : Id) (user : User) : Bool :=
  db.users.rows.any (fun row => row.1 ≠ userId && row.2.username == user.username) ||
    !(db.stores.get? user.storeId).isSome

/-- `none` where the commit fails. -/
def updateUser (db : Db) (userId : Id) (changes : UserChanges) : Option Db :=
  match db.users.get? userId with
  | none => some db
  | some user =>
      if refuses db userId (changes.apply user) = true then none
      else some { db with users := db.users.modify userId fun _ => changes.apply user }

def initiateAccountMigration (db : Db) (migrationId accountId targetStoreId : Id) :
    Except String Db :=
  match db.accounts.get? accountId with
  | none => .error "Account not found"
  | some account =>
      if (db.stores.get? targetStoreId).isNone then .error "Target store not found"
      else if account.storeId = targetStoreId then .error "Account is already on the target store"
      else if account.migrating = true then .error "Account is already migrating"
      else .ok { db with
        accounts := db.accounts.modify accountId fun a => { a with migrating := true }
        migrations := db.migrations.set migrationId
          { accountId := accountId, sourceStoreId := account.storeId
            targetStoreId := targetStoreId } }

def initiateHomeMigration (db : Db) (migrationId userId targetStoreId : Id) : Except String Db :=
  match db.users.get? userId with
  | none => .error "User not found"
  | some user =>
      if user.migrating = true then .error "User is already migrating"
      else if (db.stores.get? targetStoreId).isNone then .error "Target store not found"
      else if user.storeId = targetStoreId then .error "User is already on the target store"
      else .ok { db with
        users := db.users.modify userId fun u => { u with migrating := true }
        migrations := db.migrations.set migrationId
          { userId := userId, sourceStoreId := user.storeId, targetStoreId := targetStoreId } }

/-- What `initiate_store_drain` finds on the store: accounts, then users. -/
def drained (db : Db) (sourceStoreId : Id) : List (Bool × Id) :=
  ((db.accounts.rows.filter fun row => row.2.storeId = sourceStoreId ∧ row.2.migrating = false).map
    fun row => (false, row.1)) ++
  (db.users.rows.filter fun row => row.2.storeId = sourceStoreId ∧ row.2.migrating = false).map
    fun row => (true, row.1)

/-- One after the other, each with the id of its migration. What was committed before a refusal
stays. -/
def initiateAll (targetStoreId : Id) : List ((Bool × Id) × Id) → Db → Db
  | [], db => db
  | ((home, id), migrationId) :: rest, db =>
      match
        if home = true then initiateHomeMigration db migrationId id targetStoreId
        else initiateAccountMigration db migrationId id targetStoreId
      with
      | .ok db => initiateAll targetStoreId rest db
      | .error _ => db

def initiateStoreDrain (db : Db) (migrationIds : List Id) (sourceStoreId targetStoreId : Id) : Db :=
  if (db.stores.get? sourceStoreId).isNone ∨ (db.stores.get? targetStoreId).isNone ∨
      sourceStoreId = targetStoreId then db
  else initiateAll targetStoreId ((drained db sourceStoreId).zip migrationIds) db

/-! ## Operations -/

inductive Operation where
  | setAllowedStores (userId : Id) (storeIds : List Id)
  | updateUser (userId : Id) (changes : UserChanges)
  | initiateHomeMigration (migrationId userId targetStoreId : Id)
  | initiateStoreDrain (migrationIds : List Id) (sourceStoreId targetStoreId : Id)
  /-- A migration of an account or of a home, also as a part of a drain. -/
  | execute (home : Bool) (limit : ℕ) (cwd : Path) (migrationId : Id)

def kindOf (home : Bool) : MigrationKind := if home = true then homeKind else accountKind

/-- A migration ends as the disk and the cancel flag will have it, or is killed. -/
def Steps (w : World) : Operation → World → Prop
  | .setAllowedStores userId storeIds, w' =>
      w' = { w with allowed := (setAllowedStores w.db w.allowed userId storeIds).1 }
  | .updateUser userId changes, w' =>
      w' = { w with db := (updateUser w.db userId changes).getD w.db }
  | .initiateHomeMigration migrationId userId targetStoreId, w' =>
      w.db.migrations.get? migrationId = none ∧
        w' = { w with
          db := (initiateHomeMigration w.db migrationId userId targetStoreId).toOption.getD w.db }
  | .initiateStoreDrain migrationIds sourceStoreId targetStoreId, w' =>
      (∀ id ∈ migrationIds, w.db.migrations.get? id = none) ∧ migrationIds.Nodup ∧
        migrationIds.length = (drained w.db sourceStoreId).length ∧
          w' = { w with db := initiateStoreDrain w.db migrationIds sourceStoreId targetStoreId }
  | .execute home limit cwd migrationId, w' =>
      ∃ tr q s', Run hostStep (executeMigration (kindOf home) limit cwd migrationId)
        { files := w.files, db := w.db } tr q s' ∧ w' = { w with db := s'.db, files := s'.files }

/-- The boot before the first request. -/
def World.booted (w : World) : World := { w with allowed := backfillAllowedStores w.db w.allowed }

/-- A user who may choose between stores has the home on one of them. -/
def HomeAllowed (w : World) : Prop :=
  ∀ userId user, w.db.users.get? userId = some user → w.allowed userId ≠ [] →
    user.storeId ∈ w.allowed userId

/-- The home of the user may be on the store. -/
def Allows (w : World) (userId storeId : Id) : Prop :=
  w.allowed userId = [] ∨ storeId ∈ w.allowed userId

/-- The operation brings no home to a store that is not allowed. -/
def Within (w : World) : Operation → Prop
  | .setAllowedStores userId _ => ∀ user, w.db.users.get? userId = some user → user.storeId ≠ ""
  | .updateUser userId changes => ∀ user storeId, w.db.users.get? userId = some user →
      user.migrating = false → changes.storeId = some storeId → Allows w userId storeId
  | .execute home _ _ migrationId => home = true → ∀ m userId,
      w.db.migrations.get? migrationId = some m → m.userId = some userId →
        Allows w userId m.targetStoreId
  | _ => True

/-! ## What a migration does to the rows -/

section Rows

variable {P : Db → Prop} {s s' : Host} {α : Type}

/-- The operation keeps a property of the rows. -/
def KeepsRows (P : Db → Prop) : HostOp → Prop
  | .assign f => ∀ db, P db → P (f db)
  | _ => True

theorem hostStep_holds {o : HostOp} {r : Except Exc (HostAns o)} (ho : KeepsRows P o)
    (h : Holds P s) (hr : hostStep o s r = some s') : Holds P s' := by
  cases r with
  | error e => exact hostStep_error hr ▸ h
  | ok a =>
      cases o with
      | assign f =>
          cases hr
          exact ⟨h.1, ho _ h.2⟩
      | commit =>
          cases hr
          exact ⟨h.2, h.2⟩
      | mkdir p => exact h.files (withFiles_eq_some hr).1
      | openWrite p => exact h.files (withFiles_eq_some hr).1
      | append p byte =>
          obtain ⟨content, -, hwrite⟩ := Option.bind_eq_some_iff.mp hr
          exact h.files (withFiles_eq_some hwrite).1
      | unlink p =>
          simp only [hostStep] at hr
          split at hr
          · cases hr
          · exact h.files (withFiles_eq_some hr).1
      | rmdir p =>
          simp only [hostStep] at hr
          split at hr
          · exact h.files (withFiles_eq_some hr).1
          · cases hr
      | copystat p q => exact Option.some.inj hr ▸ h
      | enterRmtree p => exact Option.some.inj hr ▸ h
      | now => exact Option.some.inj hr ▸ h
      | cancelRequested id => exact Option.some.inj hr ▸ h
      | discardCancel id => exact Option.some.inj hr ▸ h
      | _ => exact Option.some.inj (Option.ite_none_right_eq_some.mp hr).2 ▸ h

/-- The property holds all the time. -/
def holding (P : Db → Prop) : Contract HostOp Host := ⟨Holds P, fun _ _ => True⟩

theorem only_holds {p : Job α} (hp : p.Only (KeepsRows P)) (hs : Holds P s) :
    Safe hostStep (holding P) (fun _ _ => True) (fun _ _ => True) p s := by
  refine (hp.keeps (R := fun s t => Holds P s → Holds P t) (fun _ h => h)
    (fun h h' hs => h' (h hs)) (fun _ _ _ _ ho hr hs => hostStep_holds ho hs hr)
    (fun _ h => h hs) fun _ _ _ _ => trivial).post ?_ ?_
  · exact fun _ _ _ _ => trivial
  · exact fun _ _ _ _ => trivial

/-! Only the writes of the rows ask for a proof. -/

theorem op_only {o : HostOp} (ho : KeepsRows P o) : (Job.hostOp o).Only (KeepsRows P) :=
  Prog.Only.op ho

theorem mkdirOk_only (p : Path) : (mkdirOk p).Only (KeepsRows P) := by
  refine Prog.Only.handle (op_only trivial) fun e => Prog.Only.bind (op_only trivial) fun there => ?_
  cases there <;> trivial

theorem makedirsRev_only (names : List Name) : (makedirsRev names).Only (KeepsRows P) := by
  induction names with
  | nil => exact mkdirOk_only _
  | cons x rest ih =>
      refine Prog.Only.bind (op_only trivial) fun there => ?_
      cases there with
      | true => exact mkdirOk_only _
      | false => exact Prog.Only.bind ih fun _ => mkdirOk_only _

theorem copyMissing_only (source dest : Path) : (copyMissing source dest).Only (KeepsRows P) := by
  refine Prog.Only.bind (op_only trivial) fun there => ?_
  cases there with
  | true => trivial
  | false =>
      refine Prog.Only.bind (op_only trivial) fun content => ?_
      refine Prog.Only.bind (op_only trivial) fun _ => ?_
      refine Prog.Only.bind (Prog.Only.foldlM
        (fun _ byte => op_only (o := .append dest byte) trivial) content ()) fun _ => ?_
      exact op_only trivial

theorem prescan_only (limit : ℕ) (source : Path) : (prescan limit source).Only (KeepsRows P) := by
  induction limit generalizing source with
  | zero => trivial
  | succ n ih =>
      refine Prog.Only.bind (op_only trivial) fun entries => ?_
      refine Prog.Only.foldlM (fun counts entry => ?_) entries (0, 0)
      split
      · exact Prog.Only.bind (ih _) fun _ => trivial
      · exact Prog.Only.bind (op_only trivial) fun _ => trivial

theorem copyTree_only {onProgress : ℕ → ℕ → Job Unit}
    (hprogress : ∀ n m, (onProgress n m).Only (KeepsRows P)) (limit : ℕ) (source dest : Path)
    (counter : ℕ × ℕ) : (copyTree onProgress limit source dest counter).Only (KeepsRows P) := by
  induction limit generalizing source dest counter with
  | zero => trivial
  | succ n ih =>
      refine Prog.Only.bind (makedirsRev_only _) fun _ => ?_
      refine Prog.Only.bind (op_only trivial) fun entries => ?_
      refine Prog.Only.foldlM (fun counter entry => ?_) entries counter
      dsimp only
      split
      · exact ih _ _ _
      · refine Prog.Only.bind (op_only trivial) fun size => ?_
        refine Prog.Only.bind (copyMissing_only _ _) fun _ => ?_
        exact Prog.Only.bind (hprogress _ _) fun _ => trivial

theorem verifyCopy_only (limit : ℕ) (source dest : Path) :
    (verifyCopy limit source dest).Only (KeepsRows P) := by
  refine Prog.Only.bind (prescan_only _ _) fun src => ?_
  refine Prog.Only.bind (prescan_only _ _) fun dst => ?_
  split <;> trivial

theorem rmtreeFrom_only (limit : ℕ) (p : Path) : (rmtreeFrom limit p).Only (KeepsRows P) := by
  induction limit generalizing p with
  | zero => trivial
  | succ n ih =>
      refine Prog.Only.bind (Prog.Only.handle (op_only trivial) fun _ => trivial) fun entries => ?_
      refine Prog.Only.bind (Prog.Only.foldlM (fun _ entry => ?_) entries ()) fun _ => ?_
      · split
        · exact ih _
        · exact Prog.Only.handle (op_only trivial) fun _ => trivial
      · exact Prog.Only.handle (op_only trivial) fun _ => trivial

/-- The property does not look at the migrations. -/
def BlindToMigrations (P : Db → Prop) : Prop :=
  ∀ migrationId f db, P db → P (setMigration migrationId f db)

variable (hblind : BlindToMigrations P)

include hblind

theorem saveMigration_only (migrationId : Id) (f : StoreMigration → StoreMigration) :
    (saveMigration migrationId f).Only (KeepsRows P) :=
  Prog.Only.bind (op_only (hblind migrationId f)) fun _ => op_only trivial

omit hblind in
theorem checkCancel_only (migrationId : Id) : (checkCancel migrationId).Only (KeepsRows P) := by
  refine Prog.Only.bind (op_only trivial) fun cancelled => ?_
  cases cancelled <;> trivial

theorem onProgress_only (migrationId : Id) (files bytes : ℕ) :
    (onProgress migrationId files bytes).Only (KeepsRows P) := by
  refine Prog.Only.bind (checkCancel_only migrationId) fun _ => ?_
  refine Prog.Only.bind (op_only (hblind migrationId _)) fun _ => ?_
  split
  · exact op_only trivial
  · trivial

theorem copyPhase_only (limit : ℕ) (migrationId : Id) (source target : Path) :
    (copyPhase limit migrationId source target).Only (KeepsRows P) := by
  refine Prog.Only.bind (prescan_only _ _) fun totals => ?_
  refine Prog.Only.bind (saveMigration_only hblind migrationId _) fun _ => ?_
  refine Prog.Only.bind (copyTree_only (onProgress_only hblind migrationId) _ _ _ _) fun _ => ?_
  refine Prog.Only.bind (saveMigration_only hblind migrationId _) fun _ => ?_
  refine Prog.Only.bind (checkCancel_only migrationId) fun _ => ?_
  refine Prog.Only.bind (verifyCopy_only _ _ _) fun verdict => ?_
  split
  · trivial
  · exact Prog.Only.bind (saveMigration_only hblind migrationId _) fun _ => trivial

variable {places : Places} (hswitch : ∀ db, P db → P (places.switch db))
  (hrelease : ∀ db, P db → P (places.release db))

include hswitch hrelease

theorem cleanPhase_only (limit : ℕ) (migrationId : Id) (source : Path) :
    (cleanPhase limit migrationId places source).Only (KeepsRows P) := by
  refine Prog.Only.bind (checkCancel_only migrationId) fun _ => ?_
  refine Prog.Only.bind (saveMigration_only hblind migrationId _) fun _ => ?_
  refine Prog.Only.bind (op_only hswitch) fun _ => ?_
  refine Prog.Only.bind (op_only trivial) fun _ => ?_
  refine Prog.Only.bind (op_only trivial) fun there => ?_
  have hend : (do
      let now ← Job.getNow
      Job.assign (setMigration migrationId fun m =>
        { m with status := .completed, completedAt := some now })
      Job.assign places.release
      Job.commit : Job Unit).Only (KeepsRows P) := by
    refine Prog.Only.bind (op_only trivial) fun now => ?_
    refine Prog.Only.bind (op_only (hblind migrationId _)) fun _ => ?_
    exact Prog.Only.bind (op_only hrelease) fun _ => op_only trivial
  dsimp only
  split
  · exact Prog.Only.bind (op_only (o := .enterRmtree source) trivial) fun _ =>
      Prog.Only.bind (rmtreeFrom_only _ _) fun _ => hend
  · exact hend

omit hswitch in
theorem migrationFailed_only (migrationId : Id) (e : Exc) :
    (migrationFailed migrationId places e).Only (KeepsRows P) := by
  cases e with
  | migrationCancelled =>
      refine Prog.Only.bind (op_only (hblind migrationId _)) fun _ => ?_
      exact Prog.Only.bind (op_only hrelease) fun _ => op_only trivial
  | osError message => exact saveMigration_only hblind migrationId _
  | recursionError => exact saveMigration_only hblind migrationId _
  | rowDeleted => exact saveMigration_only hblind migrationId _

omit hswitch hrelease

/-- Both writes of the rows that are behind a migration keep the property. -/
def KeptBy (P : Db → Prop) (kind : MigrationKind) (migration : StoreMigration) : Prop :=
  ∀ db places, kind.locate db migration = some places →
    (∀ db, P db → P (places.switch db)) ∧ ∀ db, P db → P (places.release db)

theorem attemptMigration_only {kind : MigrationKind} {migration : StoreMigration}
    (hkept : KeptBy P kind migration) (limit : ℕ) (cwd : Path) (migrationId : Id) :
    (attemptMigration kind limit cwd migrationId migration).Only (KeepsRows P) := by
  refine Prog.Only.bind (op_only trivial) fun now => ?_
  refine Prog.Only.bind (saveMigration_only hblind migrationId _) fun _ => ?_
  refine Prog.Only.bind (op_only trivial) fun (db : Db) => ?_
  cases hlocate : kind.locate db migration with
  | none =>
      trivial
  | some places =>
      obtain ⟨hswitch, hrelease⟩ := hkept db places hlocate
      dsimp only
      refine Prog.Only.bind (op_only trivial) fun there => ?_
      split
      · refine Prog.Only.bind (copyPhase_only hblind _ _ _ _) fun proceed => ?_
        split
        · exact cleanPhase_only hblind hswitch hrelease _ _ _
        · trivial
      · refine Prog.Only.bind (op_only (hblind migrationId _)) fun _ => ?_
        exact cleanPhase_only hblind hswitch hrelease _ _ _

/-- However a migration ends, the property holds afterwards. -/
theorem executeMigration_holds {kind : MigrationKind} {limit : ℕ} {cwd : Path} {migrationId : Id}
    (hkept : ∀ migration, s.db.migrations.get? migrationId = some migration → KeptBy P kind migration)
    (hs : P s.db) (hid : s.staged = id) :
    Safe hostStep (holding P) (fun _ _ => True) (fun _ _ => True)
      (executeMigration kind limit cwd migrationId) s := by
  have hholds : Holds P s := ⟨hs, by rw [hid]; exact hs⟩
  unfold executeMigration
  apply Safe.bind
  refine safe_op hholds trivial ?_ fun hf => by cases hf
  intro (db : Db) s' hview
  obtain ⟨rfl, hs'⟩ := Option.ite_none_right_eq_some.mp hview
  obtain rfl := Option.some.inj hs'
  refine ⟨hholds, ?_⟩
  rw [hid]
  refine only_holds ?_ hholds
  dsimp only [id]
  cases hmigration : s.db.migrations.get? migrationId with
  | none => trivial
  | some migration =>
      dsimp only
      cases hlocate : kind.locate s.db migration with
      | none => exact saveMigration_only hblind migrationId _
      | some places =>
          obtain ⟨hswitch, hrelease⟩ := hkept migration hmigration s.db places hlocate
          refine Prog.Only.ensure (Prog.Only.handle ?_ fun e => ?_) (op_only trivial)
          · exact attemptMigration_only hblind (hkept migration hmigration) _ _ _
          · exact migrationFailed_only hblind hrelease migrationId e

end Rows

/-! ## The invariant -/

variable {w w' : World} {db db' : Db} {userId storeId : Id}

/-- Every user has the store of before, or one that is allowed. -/
def Moves (w : World) (db : Db) : Prop :=
  ∀ userId u', db.users.get? userId = some u' → ∃ u, w.db.users.get? userId = some u ∧
    (u'.storeId = u.storeId ∨ Allows w userId u'.storeId)

theorem Moves.refl (w : World) : Moves w w.db := fun _ u hu => ⟨u, hu, .inl rfl⟩

theorem Moves.homeAllowed (h : Moves w db) (hw : HomeAllowed w) (files : Files) :
    HomeAllowed { w with db := db, files := files } := by
  intro userId u' hu' hne
  obtain ⟨u, hu, hsame | hallowed⟩ := h userId u' hu'
  · rw [hsame]
    exact hw userId u hu hne
  · exact hallowed.resolve_left hne

/-- Another row for one user. -/
theorem Moves.modify (h : Moves w db) {f : User → User}
    (hf : ∀ u, (f u).storeId = u.storeId ∨ Allows w userId (f u).storeId) :
    Moves w { db with users := db.users.modify userId f } := by
  intro id u' hu'
  rw [Table.get?_modify] at hu'
  split at hu'
  · rename_i hid
    subst hid
    obtain ⟨u, hu, rfl⟩ := Option.map_eq_some_iff.mp hu'
    obtain ⟨u₀, hu₀, hstore⟩ := h id u hu
    refine ⟨u₀, hu₀, ?_⟩
    obtain hsame | hallowed := hf u
    · rw [hsame]
      exact hstore
    · exact .inr hallowed
  · exact h id u' hu'

theorem moves_blind (w : World) : BlindToMigrations (Moves w) := fun _ _ _ h => h

theorem keptBy_home {m : StoreMigration}
    (hm : ∀ userId, m.userId = some userId → Allows w userId m.targetStoreId) :
    KeptBy (Moves w) homeKind m := by
  intro db places hlocate
  obtain ⟨userId, huser, hrest⟩ := Option.bind_eq_some_iff.mp hlocate
  obtain ⟨user, -, hrest⟩ := Option.bind_eq_some_iff.mp hrest
  obtain ⟨source, -, hrest⟩ := Option.bind_eq_some_iff.mp hrest
  obtain ⟨target, -, hplaces⟩ := Option.bind_eq_some_iff.mp hrest
  obtain rfl := Option.some.inj hplaces
  exact ⟨fun _ h => h.modify fun _ => .inr (hm userId huser), fun _ h => h.modify fun _ => .inl rfl⟩

theorem keptBy_account (m : StoreMigration) : KeptBy (Moves w) accountKind m := by
  intro db places hlocate
  obtain ⟨accountId, -, hrest⟩ := Option.bind_eq_some_iff.mp hlocate
  obtain ⟨account, -, hrest⟩ := Option.bind_eq_some_iff.mp hrest
  obtain ⟨target, -, hplaces⟩ := Option.bind_eq_some_iff.mp hrest
  obtain rfl := Option.some.inj hplaces
  exact ⟨fun _ h => h, fun _ h => h⟩

theorem updateUser_moves {changes : UserChanges} (hwithin : Within w (.updateUser userId changes)) :
    Moves w ((updateUser w.db userId changes).getD w.db) := by
  unfold updateUser
  cases huser : w.db.users.get? userId with
  | none => exact Moves.refl w
  | some user =>
      dsimp only
      split
      · exact Moves.refl w
      · rw [Option.getD_some]
        intro id u' hu'
        rw [Table.get?_modify] at hu'
        split at hu'
        · rename_i hid
          subst hid
          rw [huser, Option.map_some] at hu'
          obtain rfl := Option.some.inj hu'
          refine ⟨user, huser, ?_⟩
          simp only [UserChanges.apply]
          split
          · exact .inl rfl
          · rename_i hstill
            cases hstore : changes.storeId with
            | none => exact .inl rfl
            | some storeId =>
                exact .inr (hwithin user storeId huser (Bool.eq_false_iff.mpr hstill) hstore)
        · exact ⟨u', hu', .inl rfl⟩

theorem initiateHomeMigration_moves {migrationId targetStoreId : Id} (h : Moves w db)
    (hdb : initiateHomeMigration db migrationId userId targetStoreId = .ok db') : Moves w db' := by
  unfold initiateHomeMigration at hdb
  split at hdb
  · cases hdb
  · split at hdb
    · cases hdb
    · split at hdb
      · cases hdb
      · split at hdb
        · cases hdb
        · obtain rfl := Except.ok.inj hdb
          exact h.modify fun _ => .inl rfl

theorem initiateAccountMigration_moves {migrationId accountId targetStoreId : Id} (h : Moves w db)
    (hdb : initiateAccountMigration db migrationId accountId targetStoreId = .ok db') :
    Moves w db' := by
  unfold initiateAccountMigration at hdb
  split at hdb
  · cases hdb
  · split at hdb
    · cases hdb
    · split at hdb
      · cases hdb
      · split at hdb
        · cases hdb
        · obtain rfl := Except.ok.inj hdb
          exact h

theorem initiateAll_moves {targetStoreId : Id} {items : List ((Bool × Id) × Id)} (h : Moves w db) :
    Moves w (initiateAll targetStoreId items db) := by
  induction items generalizing db with
  | nil => exact h
  | cons item items ih =>
      obtain ⟨⟨home, id⟩, migrationId⟩ := item
      unfold initiateAll
      split
      · rename_i db' hdb'
        refine ih ?_
        split at hdb'
        · exact initiateHomeMigration_moves h hdb'
        · exact initiateAccountMigration_moves h hdb'
      · exact h

/-- The new list of a user has the home store, where there is one to keep. -/
theorem homeAllowed_set {storeIds : List Id} (hw : HomeAllowed w)
    (hgiven : ∀ user, w.db.users.get? userId = some user →
      user.storeId ≠ "" ∨ storeIds = [user.storeId]) :
    HomeAllowed { w with allowed := (setAllowedStores w.db w.allowed userId storeIds).1 } := by
  unfold setAllowedStores
  cases huser : w.db.users.get? userId with
  | none => exact hw
  | some user =>
      dsimp only
      split
      · exact hw
      · split
        · exact hw
        · rename_i hkeeps
          intro id u hu hne
          by_cases hid : id = userId
          · subst hid
            rw [huser] at hu
            obtain rfl := Option.some.inj hu
            simp only [Function.update_self] at hne ⊢
            obtain hstore | hsingle := hgiven user huser
            · exact not_not.mp fun hnot => hkeeps ⟨hstore, hnot⟩
            · obtain ⟨storeId, hmem⟩ := List.exists_mem_of_ne_nil _ hne
              have hsame : storeId = user.storeId := by
                simpa [hsingle] using (List.mem_filter.mp hmem).2
              exact hsame ▸ hmem
          · simp only [Function.update_of_ne hid] at hne ⊢
            exact hw id u hu hne

theorem homeAllowed_step {operation : Operation} (hw : HomeAllowed w) (hwithin : Within w operation)
    (hstep : Steps w operation w') : HomeAllowed w' := by
  cases operation with
  | setAllowedStores userId storeIds =>
      obtain rfl := hstep
      exact homeAllowed_set hw fun user huser => .inl (hwithin user huser)
  | updateUser userId changes =>
      obtain rfl := hstep
      exact (updateUser_moves hwithin).homeAllowed hw w.files
  | initiateHomeMigration migrationId userId targetStoreId =>
      obtain ⟨-, rfl⟩ := hstep
      cases hdb : initiateHomeMigration w.db migrationId userId targetStoreId with
      | error e => exact hw
      | ok db => exact (initiateHomeMigration_moves (Moves.refl w) hdb).homeAllowed hw w.files
  | initiateStoreDrain migrationIds sourceStoreId targetStoreId =>
      obtain ⟨-, -, -, rfl⟩ := hstep
      unfold initiateStoreDrain
      split
      · exact hw
      · exact (initiateAll_moves (Moves.refl w)).homeAllowed hw w.files
  | execute home limit cwd migrationId =>
      obtain ⟨tr, q, s', hrun, rfl⟩ := hstep
      have hkept : ∀ m, w.db.migrations.get? migrationId = some m →
          KeptBy (Moves w) (kindOf home) m := by
        intro m hm
        cases home with
        | false => exact keptBy_account m
        | true => exact keptBy_home fun userId huser => hwithin rfl m userId hm huser
      have hsafe : Safe hostStep (holding (Moves w)) (fun _ _ => True) (fun _ _ => True)
          (executeMigration (kindOf home) limit cwd migrationId) ⟨w.files, w.db, id⟩ :=
        executeMigration_holds (moves_blind w) hkept (Moves.refl w) rfl
      exact (hsafe.run hrun).crash.1.homeAllowed hw s'.files

/-! ## The boot -/

theorem backfillUser_keeps {allowed : Id → List Id} {row : Id × User}
    (hne : allowed userId ≠ []) : backfillUser db allowed row userId = allowed userId := by
  unfold backfillUser
  split
  · rename_i hempty
    have hid : userId ≠ row.1 := by
      rintro rfl
      exact hne hempty
    unfold setAllowedStores
    split
    · rfl
    · split
      · rfl
      · dsimp only
        split
        · rfl
        · exact Function.update_of_ne hid _ _
  · rfl

/-- The backfill fills empty lists and changes no other. -/
theorem homeAllowed_booted : HomeAllowed w.booted ↔ HomeAllowed w := by
  constructor
  · intro h userId user huser hne
    have hkeeps : ∀ (rows : List (Id × User)) (allowed : Id → List Id), allowed userId ≠ [] →
        rows.foldl (backfillUser w.db) allowed userId = allowed userId := by
      intro rows
      induction rows with
      | nil => exact fun _ _ => rfl
      | cons row rows ih =>
          intro allowed hne
          rw [List.foldl_cons, ih _ (by rw [backfillUser_keeps hne]; exact hne),
            backfillUser_keeps hne]
    have hsame : w.booted.allowed userId = w.allowed userId := hkeeps _ _ hne
    rw [← hsame]
    exact h userId user huser (by rw [hsame]; exact hne)
  · intro h
    have hfill : ∀ (rows : List (Id × User)) (allowed : Id → List Id),
        (∀ row ∈ rows, w.db.users.get? row.1 = some row.2) →
        HomeAllowed { w with allowed := allowed } →
        HomeAllowed { w with allowed := rows.foldl (backfillUser w.db) allowed } := by
      intro rows
      induction rows with
      | nil => exact fun _ _ h => h
      | cons row rows ih =>
          intro allowed hrows hallowed
          obtain ⟨hrow, hrest⟩ := List.forall_mem_cons.mp hrows
          refine ih _ hrest ?_
          unfold backfillUser
          split
          · refine homeAllowed_set (w := { w with allowed := allowed }) hallowed fun user huser => ?_
            obtain rfl : row.2 = user := Option.some.inj (hrow.symm.trans huser)
            exact .inr rfl
          · exact hallowed
    exact hfill _ _ (fun row hrow => Table.mem_rows.mp hrow) h

/-- The home store stays among the allowed ones as long as no migration and no `update_user`
leads out of them. -/
theorem homeAllowed_of_within (w₀ w : World) (h₀ : HomeAllowed w₀)
    (hrun : Follows Steps Within w₀.booted w) : HomeAllowed w :=
  hrun.invariant (homeAllowed_booted.mpr h₀) fun _ _ _ => homeAllowed_step

/-! ## Bob and two stores -/

def bob : User := { username := "bob", storeId := "s1" }

/-- Bob has the home on the first of two stores, and has no list yet. -/
def bobsWorld : World where
  db := { (pendingHome "bob" ⟨"bob", by decide⟩).db with
    users := ⟨[("u1", bob)], List.nodup_singleton "u1"⟩
    migrations := .empty }
  files := (pendingHome "bob" ⟨"bob", by decide⟩).files
  allowed := fun _ => []

theorem homeAllowed_bobsWorld : HomeAllowed bobsWorld := fun _ _ _ h => absurd rfl h

/-- Both stores are allowed, and then the home is on the second. -/
theorem bob_moves_within : ∃ w, Follows Steps Within bobsWorld.booted w ∧
    (w.db.users.get? "u1").map User.storeId = some "s2" ∧ HomeAllowed w := by
  let w₁ : World := { bobsWorld.booted with
    allowed := (setAllowedStores bobsWorld.db bobsWorld.booted.allowed "u1" ["s1", "s2"]).1 }
  let w₂ : World := { w₁ with
    db := (updateUser w₁.db "u1" { storeId := some "s2" }).getD w₁.db }
  have hset : Within bobsWorld.booted (.setAllowedStores "u1" ["s1", "s2"]) := by
    rintro user ⟨⟩
    decide
  have hchange : Within w₁ (.updateUser "u1" { storeId := some "s2" }) := by
    rintro user storeId ⟨⟩ - ⟨⟩
    exact .inr (by decide)
  have hrun : Follows Steps Within bobsWorld.booted w₂ := (Follows.refl.step hset rfl).step hchange rfl
  exact ⟨w₂, hrun, by decide, homeAllowed_of_within bobsWorld w₂ homeAllowed_bobsWorld hrun⟩

/-- A completed migration takes the home to a store that Bob may not choose. -/
theorem not_homeAllowed : ¬ ∀ w₀ w, HomeAllowed w₀ → Follows Steps (fun _ _ => True) w₀.booted w →
    HomeAllowed w := by
  intro h
  let w₁ : World := { bobsWorld.booted with
    db := (initiateHomeMigration bobsWorld.db "g1" "u1" "s2").toOption.getD bobsWorld.db }
  have hmoved : (exec hostStep smoothly 60 (executeMigration (kindOf true) 10 [] "g1")
      { files := w₁.files, db := w₁.db }).any
        (fun x => decide ((x.2.db.users.get? "u1").map User.storeId = some "s2")) = true := by
    decide +kernel
  obtain ⟨tr, q, s', hrun, hstore⟩ := exec_any hmoved
  let w₂ : World := { w₁ with db := s'.db, files := s'.files }
  have hinitiate : Steps bobsWorld.booted (.initiateHomeMigration "g1" "u1" "s2") w₁ := ⟨rfl, rfl⟩
  have hexecute : Steps w₁ (.execute true 10 [] "g1") w₂ := ⟨tr, q, s', hrun, rfl⟩
  have hsteps : Follows Steps (fun _ _ => True) bobsWorld.booted w₂ :=
    (Follows.refl.step trivial hinitiate).step trivial hexecute
  obtain ⟨user, huser, hs2⟩ := Option.map_eq_some_iff.mp (of_decide_eq_true hstore)
  have hmem := h bobsWorld w₂ homeAllowed_bobsWorld hsteps "u1" user huser
    (by decide : bobsWorld.booted.allowed "u1" ≠ [])
  rw [hs2] at hmem
  exact absurd hmem (by decide : "s2" ∉ bobsWorld.booted.allowed "u1")

end MailFallback.AllowedStores
