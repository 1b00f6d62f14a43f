import MailFallback.Restore.Network

/-! # A lost connection

One connection is lost at some command of some message, and connecting again succeeds. Whether
messages are counted as failed for it depends on whose connection it was. -/

namespace MailFallback.Restore

open Effects Storage Staging

/-! ## Connections of which one is lost -/

def RestoreOp.conn? : RestoreOp → Option Conn
  | .select c .. | .close c | .create c _ | .search c _ | .fetch c .. | .fetchHeader c _
  | .append c .. => some c
  | .connect _ | .record _ | .cancelled => none

/-- A command for a single message; `writing` if the target was opened to be written to. -/
def RestoreOp.ofMessage (writing : Bool) : RestoreOp → Bool
  | .fetch .. | .create .. | .append .. => true
  | .select _ _ readonly => !readonly
  | .close _ => writing
  | _ => false

structure Line where
  /-- The number of the next connection. -/
  next : ℕ := 2
  lost : Option Conn := none
  /-- The connection of the last operation, if it was made there. -/
  fresh : Option Conn := none
  writing : Bool := false
  /-- The last command was given on the lost connection. -/
  unanswered : Bool := false
  /-- The message at hand was asked for, and the source answered. -/
  attempted : Bool := false
  /-- A message was counted as failed for want of an answer. -/
  blamed : Bool := false
  /-- A message was counted after the loss without having been attempted. -/
  passedBy : Bool := false
  deriving DecidableEq

namespace Line

def answered (o : RestoreOp) (w : Line) : Line :=
  { w with
    fresh := none
    unanswered := false
    writing := match o with
      | .select _ _ readonly => !readonly
      | _ => w.writing
    attempted := match o with
      | .fetch .. => true
      | _ => w.attempted }

def silent (w : Line) : Line := { w with fresh := none, unanswered := true }

def command (o : RestoreOp) (c : Conn) (w : Line) : Except Failure (RestoreAns o) → Option Line
  | .ok _ => if w.lost = some c then none else some (w.answered o)
  | .error e =>
      if w.lost = some c then
        if e = .abort false ∨ e = .os false then some w.silent else none
      else if e.isLost = true then
        if w.lost = none ∧ o.ofMessage w.writing = true then
          some { w.silent with lost := some c }
        else none
      -- The folder is selected anew with the connection.
      else if w.fresh = some c then none
      else some (w.answered o)

def connected (side : Side) (w : Line) (c : Conn) : Option Line :=
  if c = ⟨side, w.next⟩ then
    some { w with next := w.next + 1, fresh := some c, unanswered := false }
  else none

def settle (o : Outcome) (w : Line) : Line :=
  { w with
    blamed := w.blamed || decide (o = .failed) && w.unanswered
    passedBy := w.passedBy || w.lost.isSome && !w.attempted
    attempted := false }

end Line

/-- The servers, of which one connection is lost; connecting again succeeds. -/
def oneLoss : Machine RestoreOp RestoreAns Failure Line
  | .connect side, w, .ok c => w.connected side c
  | .record o, w, .ok _ => some (w.settle o)
  | .cancelled, w, .ok _ => some w
  | o, w, r => o.conn?.bind fun c => w.command o c r

variable {o : RestoreOp} {c tgt : Conn} {w w₁ w' : Line} {s : Session}

theorem oneLoss_command {r : Except Failure (RestoreAns o)} (ho : o.conn? = some c) :
    oneLoss o w r = w.command o c r := by
  cases o <;> cases ho <;> rfl

/-- What can become of a command. -/
theorem safe_command (ho : o.conn? = some c) {Q : RestoreAns o → Line → Prop}
    {E : Failure → Line → Prop} (hok : w.lost ≠ some c → ∀ a, Q a (w.answered o))
    (hrefused : w.lost ≠ some c → w.fresh ≠ some c → ∀ e, e.isLost = false → E e (w.answered o))
    (hlose : w.lost = none → o.ofMessage w.writing = true → ∀ e, e.isLost = true →
      E e { w.silent with lost := some c })
    (hdead : w.lost = some c → ∀ e, e.isLost = true → E e w.silent) :
    Safe oneLoss .free Q E (Prog.op o) w := by
  refine Safe.op trivial trivial ?_ ?_
  · intro a w' h
    rw [oneLoss_command ho, Line.command] at h
    split at h
    · cases h
    · exact ⟨trivial, Option.some.inj h ▸ hok ‹_› a⟩
  · intro e w' h
    rw [oneLoss_command ho, Line.command] at h
    refine ⟨trivial, ?_⟩
    split at h
    · split at h
      · rename_i hlost he
        refine Option.some.inj h ▸ hdead hlost e ?_
        rcases he with rfl | rfl <;> rfl
      · cases h
    · split at h
      · split at h
        · rename_i he hmsg
          exact Option.some.inj h ▸ hlose hmsg.1 hmsg.2 e he
        · cases h
      · split at h
        · cases h
        · rename_i hlost he hfresh
          exact Option.some.inj h ▸ hrefused hlost hfresh e (by simpa using he)

/-! ## One message -/

/-- Nothing is lost in between. -/
structure Line.Same (w w' : Line) : Prop where
  next : w'.next = w.next
  lost : w'.lost = w.lost
  attempted : w'.attempted = w.attempted
  blamed : w'.blamed = w.blamed
  passedBy : w'.passedBy = w.passedBy

theorem Line.Same.refl (w : Line) : Line.Same w w := ⟨rfl, rfl, rfl, rfl, rfl⟩

theorem Line.Same.trans (h : Line.Same w w₁) (h' : Line.Same w₁ w') : Line.Same w w' :=
  ⟨h'.next.trans h.next, h'.lost.trans h.lost, h'.attempted.trans h.attempted,
    h'.blamed.trans h.blamed, h'.passedBy.trans h.passedBy⟩

/-- A connection is. -/
structure Line.Broken (c : Conn) (w w' : Line) : Prop where
  before : w.lost = none
  lost : w'.lost = some c
  next : w'.next = w.next
  attempted : w'.attempted = w.attempted
  blamed : w'.blamed = w.blamed
  passedBy : w'.passedBy = w.passedBy

theorem Line.same_answered (hfetch : ∀ byUid id, o ≠ .fetch c byUid id) (ho : o.conn? = some c)
    (w : Line) : Line.Same w (w.answered o) := by
  refine ⟨rfl, rfl, ?_, rfl, rfl⟩
  cases o with
  | fetch d byUid id =>
      obtain rfl := Option.some.inj ho
      exact absurd rfl (hfetch byUid id)
  | _ => rfl

/-- How a command to the target fails: with an answer, or for ever. -/
def Raised (tgt : Conn) (w : Line) (e : Failure) (w' : Line) : Prop :=
  (e.isLost = false ∧ Line.Same w w' ∧ w'.unanswered = false) ∨
    (e.isLost = true ∧ Line.Broken tgt w w' ∧ w'.unanswered = true)

section Target

variable (hlost : w.lost ≠ some tgt)
include hlost

theorem safe_targetCommand (ho : o.conn? = some tgt) (hfetch : ∀ byUid id, o ≠ .fetch tgt byUid id)
    (h : Line.Same w w₁ ∨ Line.Broken tgt w w₁) :
    Safe oneLoss .free (fun _ w' => Line.Same w w' ∧ w'.unanswered = false) (Raised tgt w)
      (Prog.op o) w₁ := by
  have hsame : w₁.lost ≠ some tgt → Line.Same w w₁ := by
    intro hne
    exact h.resolve_right fun hbroken => hne hbroken.lost
  refine safe_command ho ?_ ?_ ?_ ?_
  · intro hne a
    exact ⟨(hsame hne).trans (Line.same_answered hfetch ho w₁), rfl⟩
  · intro hne _ e he
    exact .inl ⟨he, (hsame hne).trans (Line.same_answered hfetch ho w₁), rfl⟩
  · intro hnone _ e he
    have hw := hsame (by rw [hnone]; nofun)
    exact .inr ⟨he, ⟨hw.lost ▸ hnone, rfl, hw.next, hw.attempted, hw.blamed, hw.passedBy⟩, rfl⟩
  · intro hdead e he
    have hw : Line.Broken tgt w w₁ := h.resolve_left fun hw => hlost (hw.lost ▸ hdead)
    exact .inr ⟨he, ⟨hw.before, hw.lost, hw.next, hw.attempted, hw.blamed, hw.passedBy⟩, rfl⟩

/-- On a lost connection every further attempt fails as well. -/
theorem safe_retry_target (ho : o.conn? = some tgt)
    (hfetch : ∀ byUid id, o ≠ .fetch tgt byUid id) (n : ℕ)
    (h : Line.Same w w₁ ∨ Line.Broken tgt w w₁) :
    Safe oneLoss .free (fun _ w' => Line.Same w w' ∧ w'.unanswered = false) (Raised tgt w)
      (retry (Prog.op o) n) w₁ := by
  induction n generalizing w₁ with
  | zero => exact safe_targetCommand hlost ho hfetch h
  | succ n ih =>
      apply Safe.handle
      refine (safe_targetCommand hlost ho hfetch h).post (fun _ _ _ h => h) ?_
      intro e w' _ hraised
      split
      · exact ih (hraised.imp (fun h => h.2.1) fun h => h.2.1)
      · exact ⟨trivial, hraised⟩

theorem safe_ensureMailbox_target (folder : String) :
    Safe oneLoss .free (fun _ w' => Line.Same w w' ∨ Line.Broken tgt w w')
      (fun e w' => e.isLost = false ∧ Line.Same w w' ∧ w'.unanswered = false)
      (ensureMailbox tgt folder) w := by
  have hclose : ∀ w', Line.Same w w' → Safe oneLoss .free (fun _ w' => Line.Same w w')
      (Raised tgt w) (RestoreTask.close tgt) w' := by
    intro w' h
    exact (safe_targetCommand hlost (o := .close tgt) rfl nofun (.inl h)).post
      (fun _ _ _ h => h.1) fun _ _ _ h => h
  apply Safe.bind
  have hselect : Safe oneLoss .free (fun _ w' => Line.Same w w') (Raised tgt w) (do
      let reply ← RestoreTask.select tgt (Staging.quoted folder) false
      if reply.1 = "OK" then do
        RestoreTask.close tgt
        pure true
      else pure false) w := by
    apply Safe.bind
    refine (safe_targetCommand hlost (o := .select tgt (Staging.quoted folder) false) rfl nofun
      (.inl (.refl w))).post ?_ fun _ _ _ h => h
    intro reply w' _ h
    split
    · apply Safe.bind
      exact (hclose w' h.1).post (fun _ _ _ h => ⟨trivial, h⟩) fun _ _ _ h => h
    · exact ⟨trivial, h.1⟩
  have hcreate : ∀ w₁, Line.Same w w₁ ∨ Line.Broken tgt w w₁ →
      Safe oneLoss .free (fun _ w' => Line.Same w w' ∨ Line.Broken tgt w w')
        (fun e w' => e.isLost = false ∧ Line.Same w w' ∧ w'.unanswered = false)
        ((RestoreTask.create tgt (Staging.quoted folder)).handle fun e =>
          if e.isImap = true ∨ e.isLost = true then pure () else Prog.raise e) w₁ := by
    intro w₁ h
    apply Safe.handle
    refine (safe_targetCommand hlost (o := .create tgt (Staging.quoted folder)) rfl nofun h).post
      (fun _ _ _ h => .inl h.1) ?_
    intro e w' _ hraised
    split
    · exact ⟨trivial, hraised.imp (fun h => h.2.1) fun h => h.2.1⟩
    · rename_i he
      refine ⟨trivial, hraised.resolve_right ?_⟩
      exact fun h => he (.inr h.1)
  apply Safe.handle
  refine hselect.post ?_ ?_
  · intro selected w' _ h
    split
    · exact ⟨trivial, .inl h⟩
    · exact hcreate w' (.inl h)
  · intro e w' _ h
    exact ⟨trivial, hcreate w' (h.imp (fun h => h.2.1) fun h => h.2.1)⟩

theorem safe_deliverMessage_target (ctx : Context) (targetFolder envelope : String) (raw : Bytes)
    (hanswered : w.unanswered = false) :
    Safe oneLoss .free
      (fun o w' => (Line.Same w w' ∧ w'.unanswered = false) ∨
        (o = .failed ∧ Line.Broken tgt w w' ∧ w'.unanswered = true))
      (fun e w' => e.isLost = false ∧ Line.Same w w' ∧ w'.unanswered = false)
      (deliverMessage ctx tgt targetFolder envelope raw) w := by
  have hdate : Safe oneLoss .free (fun _ w' => w' = w)
      (fun e w' => e.isLost = false ∧ Line.Same w w' ∧ w'.unanswered = false)
      (dateOf ctx envelope) w := by
    unfold dateOf
    dsimp only
    repeat' split
    all_goals first
      | exact ⟨trivial, rfl⟩
      | exact ⟨trivial, rfl, .refl w, hanswered⟩
  apply Safe.bind
  refine hdate.post ?_ fun _ _ _ h => h
  rintro date _ - rfl
  apply Safe.bind
  refine (safe_ensureMailbox_target hlost targetFolder).post ?_ fun _ _ _ h => h
  intro _ w₁ _ h
  apply Safe.handle
  apply Safe.bind
  refine (safe_retry_target hlost (o := .append tgt (Staging.quoted targetFolder) _ _ _) rfl nofun 2
    h).post ?_ ?_
  · exact fun result w' _ h => ⟨trivial, .inl h⟩
  · intro e w' _ hraised
    split
    · refine ⟨trivial, ?_⟩
      exact hraised.imp (fun h => h.2) fun h => ⟨rfl, h.2⟩
    · rename_i he
      exact ⟨trivial, hraised.resolve_right fun h => he (.inr h.1)⟩

end Target

/-- A message fails for want of an answer only if the target is lost. If the source is, the
exception comes out. -/
theorem safe_single (ctx : Context) {src : Conn} (uid : ℕ) (targetFolder : String)
    (existing : List String) (hsrc : w.lost ≠ some src) (htgt : w.lost ≠ some tgt) :
    Safe oneLoss .free
      (fun o w' => (Line.Same { w with attempted := true } w' ∧ w'.unanswered = false) ∨
        (o = .failed ∧ Line.Broken tgt { w with attempted := true } w' ∧ w'.unanswered = true))
      (fun e w' =>
        (e.isLost = false ∧ Line.Same { w with attempted := true } w' ∧ w'.unanswered = false) ∨
          (e.isLost = true ∧ Line.Broken src w w'))
      (restoreSingleMessage ctx src tgt uid targetFolder existing) w := by
  have hasked : Line.Same { w with attempted := true }
      (w.answered (.fetch src ctx.job.byUid uid)) := ⟨rfl, rfl, rfl, rfl, rfl⟩
  have hbroken : ∀ w', Line.Broken tgt (w.answered (.fetch src ctx.job.byUid uid)) w' →
      Line.Broken tgt { w with attempted := true } w' :=
    fun w' h => ⟨h.before, h.lost, h.next, h.attempted, h.blamed, h.passedBy⟩
  have hlost : (w.answered (.fetch src ctx.job.byUid uid)).lost ≠ some tgt := htgt
  apply Safe.bind
  refine safe_command (o := .fetch src ctx.job.byUid uid) rfl ?_ ?_ ?_ ?_
  · intro _ reply
    split
    · exact ⟨trivial, .inl ⟨hasked, rfl⟩⟩
    · split
      · exact ⟨trivial, .inl ⟨hasked, rfl⟩⟩
      · split
        · exact ⟨trivial, .inl ⟨hasked, rfl⟩⟩
        · refine (safe_deliverMessage_target hlost ctx targetFolder _ _ rfl).post ?_ ?_
          · exact fun o w' _ h => h.imp (fun h => ⟨hasked.trans h.1, h.2⟩)
              fun h => ⟨h.1, hbroken w' h.2.1, h.2.2⟩
          · exact fun e w' _ h => .inl ⟨h.1, hasked.trans h.2.1, h.2.2⟩
  · exact fun _ _ e he => .inl ⟨he, hasked, rfl⟩
  · exact fun hnone _ e he => .inr ⟨he, hnone, rfl, rfl, rfl, rfl, rfl⟩
  · exact fun hdead => absurd hdead hsrc

/-! ## Between two messages -/

/-- Nothing is lost, or the source was and is connected anew. -/
structure Intact (s : Session) (w : Line) : Prop where
  src : s.src.side = .source
  tgt : s.tgt.side = .target
  next : s.src.number < w.next
  lost : ∀ c, w.lost = some c → c.side = .source ∧ c ≠ s.src ∧ c.number < w.next
  blamed : w.blamed = false
  passedBy : w.passedBy = false

/-- The target is lost and a message has failed for it. -/
structure Ruined (w : Line) : Prop where
  lost : ∃ c, w.lost = some c ∧ c.side = .target
  blamed : w.blamed = true

def Settled (s : Session) (w : Line) : Prop := Intact s w ∨ Ruined w

/-- What comes out of a folder, when the target is not lost, is no lost connection. -/
def Ended (e : Failure) (w : Line) : Prop := (e.isLost = false ∧ ∃ s, Intact s w) ∨ Ruined w

theorem Ruined.step {r : Except Failure (RestoreAns o)} (h : Ruined w)
    (hr : oneLoss o w r = some w') : Ruined w' := by
  have hcommand : ∀ c, o.conn? = some c → Ruined w' := by
    intro c ho
    rw [oneLoss_command ho] at hr
    obtain ⟨d, hd, hside⟩ := h.lost
    cases r with
    | ok a =>
        obtain ⟨-, heq⟩ := Option.ite_none_left_eq_some.mp hr
        obtain rfl := Option.some.inj heq
        exact ⟨⟨d, hd, hside⟩, h.blamed⟩
    | error e =>
        simp only [Line.command, hd, reduceCtorEq, false_and, if_false] at hr
        split at hr
        · split at hr
          · obtain rfl := Option.some.inj hr
            exact ⟨⟨d, hd, hside⟩, h.blamed⟩
          · cases hr
        · split at hr
          · cases hr
          · split at hr
            · cases hr
            · obtain rfl := Option.some.inj hr
              exact ⟨⟨d, hd, hside⟩, h.blamed⟩
  cases o with
  | connect side =>
      cases r with
      | ok c =>
          simp only [oneLoss, Line.connected] at hr
          split at hr
          · obtain rfl := Option.some.inj hr
            exact ⟨h.lost, h.blamed⟩
          · cases hr
      | error e => cases hr
  | record o =>
      cases r with
      | ok _ =>
          obtain rfl := Option.some.inj hr
          exact ⟨h.lost, by simp [Line.settle, h.blamed]⟩
      | error e => cases hr
  | cancelled =>
      cases r with
      | ok _ => exact Option.some.inj hr ▸ h
      | error e => cases hr
  | _ => exact hcommand _ rfl

/-- Nothing mends that. -/
theorem Ruined.safe {α : Type} (h : Ruined w) (p : RestoreTask α) {Q : α → Line → Prop}
    {E : Failure → Line → Prop} (hQ : ∀ a w, Ruined w → Q a w) (hE : ∀ e w, Ruined w → E e w) :
    Safe oneLoss .free Q E p w :=
  (Safe.stable (fun _ _ _ _ h hr => Ruined.step h hr) h).post (fun a w _ h => hQ a w h)
    fun e w _ h => hE e w h

theorem Intact.ne_src (h : Intact s w) : w.lost ≠ some s.src := fun heq => (h.lost _ heq).2.1 rfl

theorem Intact.ne_tgt (h : Intact s w) : w.lost ≠ some s.tgt := by
  intro heq
  have hside := (h.lost _ heq).1
  rw [h.tgt] at hside
  cases hside

theorem Intact.of_same (h : Intact s w) (hw : Line.Same w w') : Intact s w' where
  src := h.src
  tgt := h.tgt
  next := hw.next ▸ h.next
  lost := by
    rw [hw.lost, hw.next]
    exact h.lost
  blamed := hw.blamed.trans h.blamed
  passedBy := hw.passedBy.trans h.passedBy

theorem Intact.attempted (h : Intact s w) : Intact s { w with attempted := true } :=
  ⟨h.src, h.tgt, h.next, h.lost, h.blamed, h.passedBy⟩

theorem Intact.answered (h : Intact s w) (o : RestoreOp) : Intact s (w.answered o) :=
  ⟨h.src, h.tgt, h.next, h.lost, h.blamed, h.passedBy⟩

/-- A message that was attempted and answered for is counted. -/
theorem Intact.settle (h : Intact s w) (hattempted : w.attempted = true)
    (hanswered : w.unanswered = false) (o : Outcome) : Intact s (w.settle o) :=
  ⟨h.src, h.tgt, h.next, h.lost, by simp [Line.settle, h.blamed, hanswered],
    by simp [Line.settle, h.passedBy, hattempted]⟩

theorem Line.Broken.ruined (h : Line.Broken c w w') (hside : c.side = .target)
    (hunanswered : w'.unanswered = true) : Ruined (w'.settle .failed) :=
  ⟨⟨c, h.lost, hside⟩, by simp [Line.settle, hunanswered]⟩

/-- Counts a message and goes on. -/
theorem safe_settle (o : Outcome) {E : Failure → Line → Prop} (h : Settled s (w.settle o)) :
    Safe oneLoss .free Settled E ((RestoreTask.record o).bind fun _ => Prog.ret s) w := by
  apply Safe.bind
  refine Safe.op trivial trivial ?_ ?_
  · intro _ w' hr
    obtain rfl := Option.some.inj hr
    exact ⟨trivial, trivial, h⟩
  · intro e w' hr
    cases hr

/-- The session is on new connections after the source was lost. -/
theorem safe_reconnect_source (ctx : Context) (hparams : ctx.srcConnParams = true)
    (fullFolder : String) (h : Intact s w) (hbroken : Line.Broken s.src w w')
    {E : Failure → Line → Prop} :
    Safe oneLoss .free (fun r w'' => r.2 = true ∧ Intact r.1 w'' ∧ w''.lost ≠ none) E
      (reconnect ctx fullFolder s) w' := by
  have hblamed : w'.blamed = false := hbroken.blamed.trans h.blamed
  have hpassedBy : w'.passedBy = false := hbroken.passedBy.trans h.passedBy
  have hsrc : s.src ≠ ⟨.source, w'.next⟩ := by
    intro heq
    have hlt := h.next
    rw [← hbroken.next, heq] at hlt
    exact Nat.lt_irrefl _ hlt
  have hconnect : ∀ (side : Side) (v : Line), Safe oneLoss .free
      (fun c v' => c = ⟨side, v.next⟩ ∧
        v' = { v with next := v.next + 1, fresh := some c, unanswered := false })
      (fun _ _ => False) (RestoreTask.connect side) v := by
    intro side v
    refine Safe.op trivial trivial ?_ ?_
    · intro c v' hr
      simp only [oneLoss, Line.connected] at hr
      obtain ⟨hc, heq⟩ := Option.ite_none_right_eq_some.mp hr
      exact ⟨trivial, hc, (Option.some.inj heq).symm⟩
    · intro e v' hr
      cases hr
  have hfirst : Safe oneLoss .free (fun r v => r.2 = true ∧ Intact r.1 v ∧ v.lost ≠ none) E
      (reconnectSource ctx fullFolder s) w' := by
    unfold reconnectSource
    rw [if_pos hparams]
    apply Safe.bind
    refine (safe_attempt (hconnect .source w')).post ?_ fun _ _ _ h => h
    rintro r v - hr
    cases r with
    | error e => exact (hr.2 e rfl).elim
    | ok src =>
        obtain ⟨rfl, rfl⟩ := hr.1 src rfl
        apply Safe.bind
        have hselect := safe_command (o := .select ⟨.source, w'.next⟩ (Staging.quoted fullFolder) true)
          (w := { w' with next := w'.next + 1, fresh := some ⟨.source, w'.next⟩, unanswered := false })
          rfl (Q := fun _ v => Intact { s with src := ⟨.source, w'.next⟩ } v ∧ v.lost ≠ none)
          (E := fun _ _ => False) ?_ ?_ ?_ ?_
        · refine (safe_attempt hselect).post ?_ fun _ _ _ h => h
          intro r v _ hr
          cases r with
          | error e => exact (hr.2 e rfl).elim
          | ok reply => exact ⟨trivial, rfl, hr.1 reply rfl⟩
        · intro _ _
          refine ⟨⟨rfl, h.tgt, Nat.lt_succ_self _, ?_, hblamed, hpassedBy⟩, ?_⟩
          · intro c hc
            obtain rfl := Option.some.inj (hbroken.lost.symm.trans hc)
            exact ⟨h.src, hsrc, Nat.lt_succ_of_lt (hbroken.next ▸ h.next)⟩
          · exact fun hnone => nomatch hbroken.lost.symm.trans hnone
        · exact fun _ hfresh => absurd rfl hfresh
        · exact fun _ hmsg => nomatch hmsg
        · intro hdead
          exact absurd (Option.some.inj (hbroken.lost.symm.trans hdead)) hsrc
  apply Safe.bind
  refine hfirst.post ?_ fun _ _ _ h => h
  rintro ⟨s', ok⟩ v - ⟨hok, hintact, hne⟩
  dsimp only at hok hintact
  rw [if_pos hok]
  unfold reconnectTarget
  split
  · apply Safe.bind
    refine (safe_attempt (hconnect .target v)).post ?_ fun _ _ _ h => h
    rintro r v' - hr
    cases r with
    | error e => exact (hr.2 e rfl).elim
    | ok tgt =>
        obtain ⟨rfl, rfl⟩ := hr.1 tgt rfl
        refine ⟨trivial, rfl, ⟨hintact.src, rfl, Nat.lt_succ_of_lt hintact.next, ?_,
          hintact.blamed, hintact.passedBy⟩, hne⟩
        intro c hc
        obtain ⟨hside, hnew, hlt⟩ := hintact.lost c hc
        exact ⟨hside, hnew, Nat.lt_succ_of_lt hlt⟩
  · exact ⟨trivial, rfl, hintact, hne⟩

/-- What a loop hands on, unless the job was cancelled. -/
def Carried (r : Option Session) (w : Line) : Prop := ∃ s, (r = none ∨ r = some s) ∧ Settled s w

theorem safe_cancelled_settled {E : Failure → Line → Prop} {Q : Bool → Line → Prop}
    (hQ : ∀ stop, Q stop w) :
    Safe oneLoss .free Q E RestoreTask.cancelled w := by
  refine Safe.op trivial trivial ?_ ?_
  · intro stop w' hr
    exact ⟨trivial, Option.some.inj hr ▸ hQ stop⟩
  · intro e w' hr
    cases hr

section Loops

variable {ctx : Context} (hparams : ctx.srcConnParams = true) {fullFolder targetFolder : String}
  {existing : List String}
include hparams

theorem safe_restoreMessage_settled (uid : ℕ) (h : Settled s w) :
    Safe oneLoss .free Settled Ended
      (restoreMessage ctx fullFolder targetFolder existing uid s) w := by
  rcases h with h | h
  · -- an attempt that was answered for is counted
    have hcount : ∀ {s w w'} o, Intact s w → Line.Same { w with attempted := true } w' →
        w'.unanswered = false → Safe oneLoss .free Settled Ended
          ((RestoreTask.record o).bind fun _ => Prog.ret s) w' := by
      intro s w w' o h hw hanswered
      exact safe_settle o (.inl ((h.attempted.of_same hw).settle hw.attempted hanswered o))
    have hok : ∀ {s w w'} o, Intact s w →
        ((Line.Same { w with attempted := true } w' ∧ w'.unanswered = false) ∨
          (o = .failed ∧ Line.Broken s.tgt { w with attempted := true } w' ∧
            w'.unanswered = true)) → Safe oneLoss .free Settled Ended
          ((RestoreTask.record o).bind fun _ => Prog.ret s) w' := by
      rintro s w w' o h (⟨hw, hanswered⟩ | ⟨rfl, hw, hunanswered⟩)
      · exact hcount o h hw hanswered
      · exact safe_settle .failed (.inr (hw.ruined h.tgt hunanswered))
    have htry : ∀ {s w}, Intact s w → _ := fun {s w} h =>
      safe_attempt (F := Ended)
        (safe_single ctx uid targetFolder existing h.ne_src h.ne_tgt)
    apply Safe.bind
    refine (htry h).post ?_ fun _ _ _ h => h
    intro r w' _ hr
    cases r with
    | ok o => exact hok o h (hr.1 o rfl)
    | error e =>
        dsimp only
        rcases hr.2 e rfl with ⟨he, hw, hanswered⟩ | ⟨he, hbroken⟩
        · rw [if_neg (by rw [he]; nofun)]
          exact hcount .failed h hw hanswered
        · rw [if_pos he]
          apply Safe.bind
          refine (safe_reconnect_source ctx hparams fullFolder h hbroken).post ?_ fun _ _ _ h => h
          rintro ⟨s', ok⟩ v - ⟨hconnected, hintact, hne⟩
          rw [if_pos hconnected]
          apply Safe.bind
          refine (htry hintact).post ?_ fun _ _ _ h => h
          intro r v' _ hr
          cases r with
          | ok o => exact hok o hintact (hr.1 o rfl)
          | error e =>
              rcases hr.2 e rfl with ⟨-, hw, hanswered⟩ | ⟨-, hagain⟩
              · exact hcount .failed hintact hw hanswered
              · exact absurd hagain.before hne
  · exact h.safe _ (fun _ _ h => .inr h) fun _ _ h => .inr h

theorem safe_restoreMessages_settled (uidFilter : Option (List ℕ)) (uids : List ℕ)
    (h : Settled s w) :
    Safe oneLoss .free Carried Ended
      (restoreMessages ctx fullFolder targetFolder existing uidFilter uids s) w := by
  induction uids generalizing s w with
  | nil => exact ⟨trivial, s, .inr rfl, h⟩
  | cons uid uids ih =>
      apply Safe.bind
      refine safe_cancelled_settled ?_
      intro stop
      split
      · exact ⟨trivial, s, .inl rfl, h⟩
      · split
        · exact ih h
        · apply Safe.bind
          refine (safe_restoreMessage_settled hparams uid h).post ?_ fun _ _ _ h => h
          exact fun s' w' _ h' => ih h'

end Loops

/-- Outside of the messages no connection is lost. -/
theorem safe_folderCommand (ho : o.conn? = some c) (h : Intact s w) (hc : c = s.src ∨ c = s.tgt)
    (hmsg : o.ofMessage w.writing = false) :
    Safe oneLoss .free (fun _ w' => w' = w.answered o)
      (fun e w' => e.isLost = false ∧ w' = w.answered o) (Prog.op o) w := by
  have hne : w.lost ≠ some c := by
    rcases hc with rfl | rfl
    · exact h.ne_src
    · exact h.ne_tgt
  refine safe_command ho (fun _ _ => rfl) (fun _ _ e he => ⟨he, rfl⟩) ?_ ?_
  · intro _ htrue
    rw [hmsg] at htrue
    cases htrue
  · exact fun hdead => absurd hdead hne

theorem safe_collectIds_intact (found : List String) (ids : List ℕ) (h : Intact s w)
    (hwriting : w.writing = false) :
    Safe oneLoss .free (fun _ w' => Intact s w') (fun e w' => e.isLost = false ∧ Intact s w')
      (collectIds s.tgt found ids) w := by
  induction ids generalizing found w with
  | nil =>
      apply Safe.bind
      refine (safe_attempt (safe_folderCommand (o := .close s.tgt) rfl h (.inr rfl)
        hwriting)).post ?_ fun _ _ _ h => h
      rintro r w' - hr
      cases r with
      | ok _ =>
          obtain rfl := hr.1 _ rfl
          exact ⟨trivial, h.answered _⟩
      | error e =>
          obtain ⟨he, rfl⟩ := hr.2 e rfl
          dsimp only
          split
          · exact ⟨trivial, h.answered _⟩
          · exact ⟨trivial, he, h.answered _⟩
  | cons id ids ih =>
      apply Safe.bind
      refine (safe_attempt (safe_folderCommand (o := .fetchHeader s.tgt id) rfl h (.inr rfl)
        rfl)).post ?_ fun _ _ _ h => h
      rintro r w' - hr
      cases r with
      | ok reply =>
          obtain rfl := hr.1 _ rfl
          exact ih _ (h.answered _) hwriting
      | error e =>
          obtain ⟨he, rfl⟩ := hr.2 e rfl
          dsimp only
          split
          · exact ⟨trivial, h.answered _⟩
          · exact ⟨trivial, he, h.answered _⟩

theorem safe_existingMessageIds_intact (folder : String) (h : Intact s w) :
    Safe oneLoss .free (fun _ w' => Intact s w') (fun e w' => e.isLost = false ∧ Intact s w')
      (existingMessageIds s.tgt folder) w := by
  apply Safe.bind
  refine (safe_attempt (safe_folderCommand (o := .select s.tgt (Staging.quoted folder) true) rfl h
    (.inr rfl) rfl)).post ?_ fun _ _ _ h => h
  rintro r w' - hr
  cases r with
  | error e =>
      obtain ⟨he, rfl⟩ := hr.2 e rfl
      dsimp only
      split
      · exact ⟨trivial, h.answered _⟩
      · exact ⟨trivial, he, h.answered _⟩
  | ok reply =>
      obtain rfl := hr.1 _ rfl
      dsimp only
      split
      · exact ⟨trivial, h.answered _⟩
      · apply Safe.bind
        refine (safe_attempt (safe_folderCommand (o := .search s.tgt false) rfl (h.answered _)
          (.inr rfl) rfl)).post ?_ fun _ _ _ h => h
        rintro r w' - hr
        cases r with
        | error e =>
            obtain ⟨he, rfl⟩ := hr.2 e rfl
            dsimp only
            split
            · exact ⟨trivial, (h.answered _).answered _⟩
            · exact ⟨trivial, he, (h.answered _).answered _⟩
        | ok reply =>
            obtain rfl := hr.1 _ rfl
            exact safe_collectIds_intact _ _ ((h.answered _).answered _) rfl

section Folders

variable {ctx : Context} (hparams : ctx.srcConnParams = true)
include hparams

theorem safe_restoreFolder_settled (folder : String × String) (h : Settled s w) :
    Safe oneLoss .free Carried Ended (restoreFolder ctx folder s) w := by
  rcases h with h | h
  · have hend : ∀ {e : Failure} {w'}, e.isLost = false → Intact s w' → Ended e w' :=
      fun he h => .inl ⟨he, s, h⟩
    have hgo : ∀ {w'}, Intact s w' → Carried (some s) w' := fun h => ⟨s, .inr rfl, .inl h⟩
    apply Safe.bind
    refine (safe_folderCommand (o := .select s.src (Staging.quoted folder.1) true) rfl h (.inl rfl)
      rfl).post ?_ ?_
    · rintro reply w' - rfl
      split
      · exact ⟨trivial, hgo (h.answered _)⟩
      · apply Safe.bind
        refine (safe_folderCommand (o := .search s.src ctx.job.byUid) rfl (h.answered _) (.inl rfl)
          rfl).post ?_ ?_
        · rintro found w' - rfl
          split
          · exact ⟨trivial, hgo ((h.answered _).answered _)⟩
          · apply Safe.bind
            have hexisting : Safe oneLoss .free (fun _ w' => Intact s w')
                (fun e w' => e.isLost = false ∧ Intact s w') (existingIds ctx s.tgt folder.2)
                ((w.answered (.select s.src (Staging.quoted folder.1) true)).answered
                  (.search s.src ctx.job.byUid)) := by
              unfold existingIds
              split
              · exact safe_existingMessageIds_intact _ ((h.answered _).answered _)
              · exact ⟨trivial, (h.answered _).answered _⟩
            refine hexisting.post ?_ fun e w' _ he => hend he.1 he.2
            exact fun existing w' _ h => safe_restoreMessages_settled hparams _ _ (.inl h)
        · rintro e w' - ⟨he, rfl⟩
          exact hend he ((h.answered _).answered _)
    · rintro e w' - ⟨he, rfl⟩
      exact hend he (h.answered _)
  · refine h.safe _ ?_ fun _ _ h => .inr h
    intro r w h
    cases r with
    | none => exact ⟨s, .inl rfl, .inr h⟩
    | some s' => exact ⟨s', .inr rfl, .inr h⟩

theorem safe_restoreFolders_settled (folders : List (String × String)) (h : Settled s w) :
    Safe oneLoss .free Carried Ended (restoreFolders ctx folders s) w := by
  induction folders generalizing s w with
  | nil => exact ⟨trivial, s, .inr rfl, h⟩
  | cons folder folders ih =>
      apply Safe.bind
      refine safe_cancelled_settled ?_
      intro stop
      split
      · exact ⟨trivial, s, .inl rfl, h⟩
      · apply Safe.bind
        refine (safe_restoreFolder_settled hparams folder h).post ?_ fun _ _ _ h => h
        rintro r w' - ⟨s', hr, h'⟩
        cases r with
        | none => exact ⟨trivial, s', .inl rfl, h'⟩
        | some s'' =>
            obtain rfl := (Option.some.inj (hr.resolve_left nofun))
            exact ih h'

end Folders

theorem safe_countMessages_intact (folders : List (String × String)) (h : Intact s w) :
    Safe oneLoss .free (fun _ w' => Intact s w') (fun e w' => e.isLost = false ∧ Intact s w')
      (countMessages s.src folders) w := by
  induction folders generalizing w with
  | nil => exact ⟨trivial, h⟩
  | cons folder folders ih =>
      apply Safe.bind
      refine (safe_folderCommand (o := .select s.src (Staging.quoted folder.1) true) rfl h (.inl rfl)
        rfl).post ?_ ?_
      · rintro reply w' - rfl
        apply Safe.bind
        exact (ih (h.answered _)).post (fun _ _ _ h => ⟨trivial, h⟩) fun _ _ _ h => h
      · rintro e w' - ⟨he, rfl⟩
        exact ⟨he, h.answered _⟩

/-! ## Whole restores -/

theorem intact_initial : Intact .initial {} where
  src := rfl
  tgt := rfl
  next := Nat.zero_lt_two
  lost := nofun
  blamed := rfl
  passedBy := rfl

theorem safe_executeRestore_settled {ctx : Context} (hparams : ctx.srcConnParams = true)
    (folders : List (String × String)) :
    Safe oneLoss .free (fun _ w => ∃ s, Settled s w) Ended (executeRestore ctx folders .initial)
      {} := by
  apply Safe.bind
  refine (safe_countMessages_intact folders intact_initial).post ?_
    fun e w _ h => .inl ⟨h.1, _, h.2⟩
  intro counted w _ h
  apply Safe.bind
  refine (safe_restoreFolders_settled hparams folders (.inl h)).post ?_ fun _ _ _ h => h
  rintro r w' - ⟨s, -, h⟩
  exact ⟨trivial, s, h⟩

/-- No message failed for want of an answer, each that was counted after the loss had been asked
for anew, and the loss did not end the run. -/
structure LosesNothing {α : Type} (p : RestoreTask α) (w : Line) : Prop where
  blamed : w.blamed = false
  passedBy : w.passedBy = false
  raised : ∀ e, p = .raise e → e.isLost = false

/-- One lost connection costs nothing exactly if it is one to the source. -/
theorem losesNothing_iff {ctx : Context} (hparams : ctx.srcConnParams = true)
    {folders : List (String × String)} {tr : List (Event RestoreOp RestoreAns Failure)}
    {p : RestoreTask (ℕ × Option Session)} {w : Line} {c : Conn}
    (hrun : Run oneLoss (executeRestore ctx folders .initial) {} tr p w) (hend : p.finished = true)
    (hlost : w.lost = some c) : LosesNothing p w ↔ c.side = .source := by
  have hsafe := (safe_executeRestore_settled hparams folders).run hrun
  have hruined : Ruined w → (LosesNothing p w ↔ c.side = .source) := by
    intro h
    obtain ⟨d, hd, hside⟩ := h.lost
    obtain rfl := Option.some.inj (hlost.symm.trans hd)
    constructor
    · intro hno
      have hblamed := hno.blamed
      rw [h.blamed] at hblamed
      cases hblamed
    · intro hsource
      rw [hside] at hsource
      cases hsource
  have hintact : ∀ s, Intact s w → (∀ e, p = .raise e → e.isLost = false) →
      (LosesNothing p w ↔ c.side = .source) := by
    intro s h hraise
    exact ⟨fun _ => (h.lost c hlost).1, fun _ => ⟨h.blamed, h.passedBy, hraise⟩⟩
  cases p with
  | ret a =>
      obtain ⟨s, h | h⟩ := hsafe.2
      · exact hintact s h nofun
      · exact hruined h
  | raise e =>
      rcases hsafe.2 with ⟨he, s, h⟩ | h
      · refine hintact s h ?_
        rintro e' heq
        obtain rfl := Prog.raise.inj heq
        exact he
      · exact hruined h
  | perform o k => cases hend

/-- A folder of two messages on servers that do what they are asked, until `loses`. -/
def untilLost (loses : RestoreOp → Bool) (o : RestoreOp) (w : Line) :
    Except Failure (RestoreAns o) :=
  if (o.conn?.any fun c => w.lost = some c) || (w.lost.isNone && loses o) then
    .error (.abort false)
  else
    match o with
    | .connect side => .ok (show Conn from ⟨side, w.next⟩)
    | .select .. => .ok (show String × ℕ from ("OK", 2))
    | .search .. => .ok (show String × List ℕ from ("OK", [1, 2]))
    | .fetch .. => .ok (show String × Option (String × Bytes) from ("OK", some ("", [65])))
    | .fetchHeader .. => .ok (show String × Option String from ("OK", none))
    | .append .. => .ok (show String from "OK")
    | .cancelled => .ok false
    | .close _ | .create .. | .record _ => .ok ()

def plainContext : Context where
  job := { skipDuplicates := false }
  messageId := fun _ => none
  internalDate := fun _ => none

theorem losesNothing_source : ∃ tr p w,
    Run oneLoss (executeRestore plainContext [("INBOX", "INBOX")] .initial) {} tr p w ∧
      w.lost = some ⟨.source, 0⟩ ∧ LosesNothing p w := by
  have hexec : (exec oneLoss (fun o => untilLost (fun | .fetch .. => true | _ => false) o) 40
      (executeRestore plainContext [("INBOX", "INBOX")] .initial) {}).any (fun r =>
        r.1.finished && decide (r.2.lost = some ⟨.source, 0⟩)) = true := by decide +kernel
  obtain ⟨tr, p, w, hrun, h⟩ := exec_any hexec
  rw [Bool.and_eq_true, decide_eq_true_eq] at h
  exact ⟨tr, p, w, hrun, h.2, (losesNothing_iff rfl hrun h.1 h.2).mpr rfl⟩

/-- The target is lost at the first message, and both count as failed. -/
theorem not_losesNothing : ¬ ∀ tr p w,
    Run oneLoss (executeRestore plainContext [("INBOX", "INBOX")] .initial) {} tr p w →
      p.finished = true → w.lost ≠ none → LosesNothing p w := by
  have hexec : (exec oneLoss (fun o => untilLost (fun | .append .. => true | _ => false) o) 40
      (executeRestore plainContext [("INBOX", "INBOX")] .initial) {}).any (fun r =>
        r.1.finished && (r.2.lost.isSome && r.2.blamed)) = true := by decide +kernel
  obtain ⟨tr, p, w, hrun, h⟩ := exec_any hexec
  simp only [Bool.and_eq_true, Option.isSome_iff_ne_none] at h
  intro hall
  have hno := (hall tr p w hrun h.1 h.2.1).blamed
  rw [h.2.2] at hno
  cases hno

end MailFallback.Restore
