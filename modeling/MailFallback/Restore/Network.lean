import MailFallback.Restore.Semantics
import Mathlib.Logic.Function.Basic

/-! # The servers of a restore

Connections can be lost at any command, and a lost connection answers none. The source answers
from its mailboxes; the target is free in what it answers. -/

namespace MailFallback.Restore

open Effects Storage Staging

/-- The messages of a mailbox under their UIDs, in the order of their sequence numbers. -/
abbrev Mailbox := Table ℕ Bytes

namespace Mailbox

/-- The names of the messages: UIDs or sequence numbers. -/
def ids (mailbox : Mailbox) (byUid : Bool) : List ℕ :=
  if byUid = true then mailbox.keys else (List.range mailbox.rows.length).map (· + 1)

def message? (mailbox : Mailbox) (byUid : Bool) (id : ℕ) : Option Bytes :=
  if byUid = true then mailbox.get? id
  else if id = 0 then none
  else (mailbox.rows[id - 1]?).map Prod.snd

theorem nodup_ids (mailbox : Mailbox) (byUid : Bool) : (mailbox.ids byUid).Nodup := by
  unfold ids
  split
  · exact mailbox.nodup
  · exact (List.nodup_map_iff Nat.succ_injective).mpr List.nodup_range

end Mailbox

/-- A message that the target has taken, with the message of the source that was read last. -/
structure StoredMessage where
  mailbox : String
  id : ℕ
  target : String
  raw : Bytes

structure World where
  /-- The number of the next connection. -/
  next : ℕ
  dead : List Conn := []
  selected : Conn → Option String := fun _ => none
  fetched : String × ℕ := ("", 0)
  stored : List StoredMessage := []
  recorded : List Outcome := []

/-- The connections with which the worker begins. -/
def Session.initial : Session := ⟨⟨.source, 0⟩, ⟨.target, 1⟩⟩

namespace World

def lose (w : World) (c : Conn) : World := { w with dead := c :: w.dead }

def choose (w : World) (c : Conn) (mailbox : Option String) : World :=
  { w with selected := Function.update w.selected c mailbox }

def store (w : World) (target : String) (raw : Bytes) : World :=
  { w with stored := w.stored ++ [⟨w.fetched.1, w.fetched.2, target, raw⟩] }

end World

/-- A command that fails; `after` is the world if the server has carried it out. -/
def failing (c : Conn) (e : Failure) (w after : World) : Option World :=
  if c ∈ w.dead then
    if e = .abort false ∨ e = .os false then some w else none
  else
    match e with
    | .abort done | .os done => some ((if done = true then after else w).lose c)
    | .refused | .value => some w

/-- The reply to a command on a connection that is not lost. -/
def answering (c : Conn) (w : World) (after : Option World) : Option World :=
  if c ∈ w.dead then none else after

/-- A new connection has a number of its own. -/
def connecting (side : Side) (w : World) (c : Conn) : Option World :=
  if c = ⟨side, w.next⟩ then some { w.choose c none with next := w.next + 1 } else none

def searching (content : String → Mailbox) (c : Conn) (byUid : Bool) (w : World)
    (reply : String × List ℕ) : Option World :=
  match c.side, w.selected c with
  | .target, _ => some w
  | .source, none => none
  | .source, some mailbox =>
      if reply.1 = "OK" → reply.2 = (content mailbox).ids byUid then some w else none

def fetching (content : String → Mailbox) (c : Conn) (byUid : Bool) (id : ℕ) (w : World)
    (reply : String × Option (String × Bytes)) : Option World :=
  match w.selected c with
  | none => none
  | some mailbox =>
      if ∀ data ∈ reply.2, (content mailbox).message? byUid id = some data.2 then
        some { w with fetched := (mailbox, id) }
      else none

def appending (w : World) (target : String) (raw : Bytes) (status : String) : World :=
  if status = "OK" then w.store target raw else w

def network (content : String → Mailbox) : Machine RestoreOp RestoreAns Failure World
  | .connect side, w, .ok c => connecting side w c
  | .connect _, w, .error _ => some w
  | .select c mailbox _, w, .ok reply =>
      answering c w (some (w.choose c (if reply.1 = "OK" then some mailbox else none)))
  | .select c _ _, w, .error e => failing c e w w
  | .close c, w, .ok _ => answering c w (some (w.choose c none))
  | .close c, w, .error e => failing c e w w
  | .create c _, w, .ok _ => answering c w (some w)
  | .create c _, w, .error e => failing c e w w
  | .search c byUid, w, .ok reply => answering c w (searching content c byUid w reply)
  | .search c _, w, .error e => failing c e w w
  | .fetch c byUid id, w, .ok reply => answering c w (fetching content c byUid id w reply)
  | .fetch c _ _, w, .error e => failing c e w w
  | .fetchHeader c _, w, .ok _ => answering c w (some w)
  | .fetchHeader c _, w, .error e => failing c e w w
  | .append c target _ _ raw, w, .ok status => answering c w (some (appending w target raw status))
  | .append c target _ _ raw, w, .error e => failing c e w (w.store target raw)
  | .record o, w, .ok _ => some { w with recorded := w.recorded ++ [o] }
  | .cancelled, w, .ok _ => some w
  | .record _, _, .error _ | .cancelled, _, .error _ => none

variable {content : String → Mailbox} {c : Conn} {w w' : World}

/-! ## What the commands leave -/

theorem failing_self {e : Failure} (h : failing c e w w = some w') : w' = w ∨ w' = w.lose c := by
  unfold failing at h
  split at h
  · split at h
    · exact .inl (Option.some.inj h).symm
    · cases h
  · cases e <;> simp at h <;> simp [h]

theorem answering_eq {after : Option World} (h : answering c w after = some w') :
    c ∉ w.dead ∧ after = some w' := by
  unfold answering at h
  split at h
  · cases h
  · exact ⟨‹_›, h⟩

/-- The commands that the target gets between two messages. -/
def OnTarget : RestoreOp → Prop
  | .select c _ _ | .close c | .create c _ | .search c _ | .fetchHeader c _ => c.side = .target
  | _ => False

/-- Neither the messages nor the source's side are touched. -/
structure Undisturbed (w w' : World) : Prop where
  selected : ∀ c : Conn, c.side = .source → w'.selected c = w.selected c
  fetched : w'.fetched = w.fetched
  stored : w'.stored = w.stored

namespace Undisturbed

theorem refl (w : World) : Undisturbed w w := ⟨fun _ _ => rfl, rfl, rfl⟩

theorem trans {w₁ w₂ w₃ : World} (h : Undisturbed w₁ w₂) (h' : Undisturbed w₂ w₃) :
    Undisturbed w₁ w₃ :=
  ⟨fun c hc => (h'.selected c hc).trans (h.selected c hc), h'.fetched.trans h.fetched,
    h'.stored.trans h.stored⟩

theorem lose (w : World) (c : Conn) : Undisturbed w (w.lose c) := ⟨fun _ _ => rfl, rfl, rfl⟩

theorem choose (w : World) (hc : c.side = .target) (mailbox : Option String) :
    Undisturbed w (w.choose c mailbox) := by
  refine ⟨fun d hd => ?_, rfl, rfl⟩
  have hne : d ≠ c := by
    rintro rfl
    rw [hc] at hd
    cases hd
  exact Function.update_of_ne hne _ _

theorem of_failing {e : Failure} (h : failing c e w w = some w') : Undisturbed w w' := by
  rcases failing_self h with rfl | rfl
  · exact refl w'
  · exact lose w c

theorem of_network {o : RestoreOp} {r : Except Failure (RestoreAns o)} (ho : OnTarget o)
    (h : network content o w r = some w') : Undisturbed w w' := by
  cases r with
  | error e =>
      cases o <;> first | exact of_failing h | exact ho.elim
  | ok a =>
      cases o with
      | select c mailbox readonly =>
          obtain ⟨-, h⟩ := answering_eq h
          exact Option.some.inj h ▸ choose w ho _
      | close c =>
          obtain ⟨-, h⟩ := answering_eq h
          exact Option.some.inj h ▸ choose w ho _
      | create c mailbox =>
          obtain ⟨-, h⟩ := answering_eq h
          exact Option.some.inj h ▸ refl w
      | search c byUid =>
          obtain ⟨-, h⟩ := answering_eq h
          have hc : c.side = .target := ho
          simp only [searching, hc] at h
          exact Option.some.inj h ▸ refl w
      | fetchHeader c id =>
          obtain ⟨-, h⟩ := answering_eq h
          exact Option.some.inj h ▸ refl w
      | _ => exact ho.elim

/-- A program of such commands leaves them so. -/
theorem safe {α : Type} {p : RestoreTask α} (hp : p.Only OnTarget) (w : World) :
    Safe (network content) ⟨Undisturbed w, fun _ _ => True⟩ (fun _ => Undisturbed w)
      (fun _ => Undisturbed w) p w :=
  hp.keeps refl trans (fun _ _ _ _ ho h => of_network ho h) (fun _ h => h) fun _ _ _ _ => trivial

end Undisturbed

/-! ## Between two messages -/

/-- What becomes of the result and of the exceptions of a part. -/
theorem safe_attempt {σ α : Type} {M : Machine RestoreOp RestoreAns Failure σ}
    {C : Contract RestoreOp σ} {Q : α → σ → Prop} {E F : Failure → σ → Prop} {p : RestoreTask α}
    {s : σ} (h : Safe M C Q E p s) :
    Safe M C (fun r s' => (∀ a, r = .ok a → Q a s') ∧ ∀ e, r = .error e → E e s') F
      (RestoreTask.attempt p) s := by
  have hbind : Safe M C (fun r s' => (∀ a, r = .ok a → Q a s') ∧ ∀ e, r = .error e → E e s') E
      (p.bind fun a => Prog.ret (Except.ok a)) s := by
    apply Safe.bind
    refine h.post ?_ fun _ _ _ h => h
    intro a s' hc hQ
    refine ⟨hc, ?_, nofun⟩
    rintro b ⟨⟩
    exact hQ
  apply Safe.handle
  refine hbind.post (fun _ _ _ h => h) ?_
  intro e s' hc hE
  refine ⟨hc, nofun, ?_⟩
  rintro f ⟨⟩
  exact hE

theorem quoted_inj {f g : String} (h : Staging.quoted f = Staging.quoted g) : f = g := by
  have hlist := congrArg String.toList h
  have hquote : "\"".toList = ['"'] := rfl
  simp only [Staging.quoted, String.toList_append, hquote, List.cons_append, List.nil_append,
    List.cons.injEq, true_and] at hlist
  exact String.toList_inj.mp (List.append_inj_left' hlist rfl)

section Only

variable {P : RestoreOp → Prop}

theorem only_attempt {α : Type} {p : RestoreTask α} (hp : p.Only P) :
    (RestoreTask.attempt p).Only P :=
  Prog.Only.handle (Prog.Only.bind hp fun _ => trivial) fun _ => trivial

theorem only_ensureMailbox {folder : String} (hselect : P (.select c (Staging.quoted folder) false))
    (hclose : P (.close c)) (hcreate : P (.create c (Staging.quoted folder))) :
    (ensureMailbox c folder).Only P := by
  refine Prog.Only.bind (Prog.Only.handle ?_ fun _ => trivial) ?_
  · refine Prog.Only.bind (Prog.Only.op hselect) fun reply => ?_
    split
    · exact Prog.Only.bind (Prog.Only.op hclose) fun _ => trivial
    · trivial
  · intro selected
    split
    · trivial
    · refine Prog.Only.handle (Prog.Only.op hcreate) fun e => ?_
      split <;> trivial

theorem only_collectIds (hclose : P (.close c)) (hfetch : ∀ id, P (.fetchHeader c id))
    (found : List String) (ids : List ℕ) : (collectIds c found ids).Only P := by
  induction ids generalizing found with
  | nil =>
      refine Prog.Only.bind (only_attempt (Prog.Only.op hclose)) fun r => ?_
      cases r with
      | ok _ => trivial
      | error e => dsimp only; split <;> trivial
  | cons id ids ih =>
      refine Prog.Only.bind (only_attempt (Prog.Only.op (hfetch id))) fun r => ?_
      cases r with
      | ok reply => exact ih _
      | error e => dsimp only; split <;> trivial

theorem only_existingMessageIds {folder : String} (hselect : P (.select c (Staging.quoted folder) true))
    (hclose : P (.close c)) (hsearch : P (.search c false)) (hfetch : ∀ id, P (.fetchHeader c id)) :
    (existingMessageIds c folder).Only P := by
  refine Prog.Only.bind (only_attempt (Prog.Only.op hselect)) fun r => ?_
  cases r with
  | error e => dsimp only; split <;> trivial
  | ok reply =>
      dsimp only
      split
      · trivial
      · refine Prog.Only.bind (only_attempt (Prog.Only.op hsearch)) fun r => ?_
        cases r with
        | error e => dsimp only; split <;> trivial
        | ok reply => exact only_collectIds hclose hfetch _ _

end Only

end MailFallback.Restore
