import MailFallback.Restore.Network

/-! # The counters of a restore

On servers that may answer every command with anything: the counters `restored`, `skipped` and
`failed` of a job against the messages that the source listed and the ones that the target
accepted. -/

namespace MailFallback.Restore

open Effects Storage Staging

/-! ## Servers that answer anything -/

structure Books where
  /-- The mailbox that was selected last on the source. -/
  current : String := ""
  /-- The listed messages that a folder's filter does not pass over. -/
  due : ℕ := 0
  recorded : List Outcome := []
  /-- The `APPEND`s that were answered with OK. -/
  accepted : ℕ := 0
  deriving DecidableEq, Repr

/-- A message of the mailbox is one to restore. -/
def isDue (ctx : Context) (folders : List (String × String)) (mailbox : String) (uid : ℕ) : Bool :=
  folders.any fun folder =>
    Staging.quoted folder.1 = mailbox && !passesOver (uidFilter ctx folder.2) uid

namespace Books

def list (ctx : Context) (folders : List (String × String)) (w : Books) (uids : List ℕ) : Books :=
  { w with due := w.due + (uids.filter (isDue ctx folders w.current)).length }

def accept (w : Books) (status : String) : Books :=
  if status = "OK" then { w with accepted := w.accepted + 1 } else w

def note (w : Books) (o : Outcome) : Books := { w with recorded := w.recorded ++ [o] }

end Books

/-- Any reply is possible to any command; a new connection is one to the side that was asked. -/
def anyServers (ctx : Context) (folders : List (String × String)) :
    Machine RestoreOp RestoreAns Failure Books
  | .connect side, w, .ok c => if Conn.side c = side then some w else none
  | .select c mailbox _, w, _ => some (if c.side = .source then { w with current := mailbox } else w)
  | .search c _, w, .ok (status, uids) =>
      some (if c.side = .source ∧ status = "OK" then w.list ctx folders uids else w)
  | .append .., w, .ok status => some (w.accept status)
  | .record o, w, .ok _ => some (w.note o)
  | .record _, _, .error _ | .cancelled, _, .error _ => none
  | _, w, _ => some w

variable {ctx : Context} {folders : List (String × String)} {w w' : Books}

/-- The counters stand still. -/
structure Still (w w' : Books) : Prop where
  due : w'.due = w.due
  recorded : w'.recorded = w.recorded
  accepted : w'.accepted = w.accepted

theorem Still.refl (w : Books) : Still w w := ⟨rfl, rfl, rfl⟩

theorem Still.trans {w₁ w₂ w₃ : Books} (h : Still w₁ w₂) (h' : Still w₂ w₃) : Still w₁ w₃ :=
  ⟨h'.due.trans h.due, h'.recorded.trans h.recorded, h'.accepted.trans h.accepted⟩

/-- The commands that no counter depends on. -/
def Neutral : RestoreOp → Prop
  | .connect _ | .select .. | .close _ | .create .. | .fetch .. | .fetchHeader .. | .cancelled => True
  | .search c _ => c.side = .target
  | .append .. | .record _ => False

theorem Still.of_anyServers {o : RestoreOp} {r : Except Failure (RestoreAns o)} (ho : Neutral o)
    (h : anyServers ctx folders o w r = some w') : Still w w' := by
  cases o with
  | connect side =>
      cases r with
      | error e => exact Option.some.inj h ▸ .refl w
      | ok c =>
          obtain ⟨-, h⟩ := Option.ite_none_right_eq_some.mp h
          exact Option.some.inj h ▸ .refl w
  | select c mailbox readonly =>
      obtain rfl := Option.some.inj h
      split
      · exact ⟨rfl, rfl, rfl⟩
      · exact .refl w
  | search c byUid =>
      cases r with
      | error e => exact Option.some.inj h ▸ .refl w
      | ok reply =>
          obtain ⟨status, uids⟩ := reply
          have hc : ¬ (c.side = .source ∧ status = "OK") := by
            rintro ⟨hsource, -⟩
            rw [show c.side = .target from ho] at hsource
            cases hsource
          obtain rfl := Option.some.inj h
          rw [if_neg hc]
          exact .refl w
  | append c mailbox flags date raw => exact ho.elim
  | record o => exact ho.elim
  | cancelled =>
      cases r with
      | error e => cases h
      | ok stop => exact Option.some.inj h ▸ .refl w
  | _ => cases r <;> exact Option.some.inj h ▸ .refl w

theorem safe_neutral {α : Type} {p : RestoreTask α} (hp : p.Only Neutral) (w : Books) :
    Safe (anyServers ctx folders) .free (fun _ => Still w) (fun _ => Still w) p w :=
  hp.keeps Still.refl Still.trans (fun _ _ _ _ ho h => Still.of_anyServers ho h)
    (fun _ _ => trivial) fun _ _ _ _ => trivial

/-! ## One message -/

/-- One more message was accepted if that is the outcome. -/
structure Delivered (o : Outcome) (w w' : Books) : Prop where
  due : w'.due = w.due
  recorded : w'.recorded = w.recorded
  accepted : w'.accepted = w.accepted + if o = .restored then 1 else 0

theorem Delivered.of_still {o : Outcome} (h : Still w w') (ho : o ≠ .restored) : Delivered o w w' :=
  ⟨h.due, h.recorded, by rw [h.accepted, if_neg ho, Nat.add_zero]⟩

theorem Delivered.after {o : Outcome} {w₁ : Books} (h : Still w w₁) (h' : Delivered o w₁ w') :
    Delivered o w w' :=
  ⟨h'.due.trans h.due, h'.recorded.trans h.recorded, by rw [h'.accepted, h.accepted]⟩

theorem delivered_accept (w : Books) (status : String) :
    Delivered (if status = "OK" then .restored else .failed) w (w.accept status) := by
  by_cases h : status = "OK"
  · rw [if_pos h, Books.accept, if_pos h]
    exact ⟨rfl, rfl, rfl⟩
  · rw [if_neg h, Books.accept, if_neg h]
    exact .of_still (.refl w) nofun

/-- The replies that make the worker try once more are not acceptances. -/
theorem booked_retry_append (tgt : Conn) (mailbox : String) (flags date : Option String) (raw : Bytes)
    (n : ℕ) (w : Books) :
    Safe (anyServers ctx folders) .free
      (fun status w' => Delivered (if status = "OK" then .restored else .failed) w w')
      (fun _ => Still w) (retry (RestoreTask.append tgt mailbox flags date raw) n) w := by
  have honce : Safe (anyServers ctx folders) .free
      (fun status w' => Delivered (if status = "OK" then .restored else .failed) w w')
      (fun _ => (· = w)) (RestoreTask.append tgt mailbox flags date raw) w := by
    refine Safe.op trivial trivial ?_ ?_
    · intro status w' h
      obtain rfl := Option.some.inj h
      exact ⟨trivial, delivered_accept w status⟩
    · intro e w' h
      exact ⟨trivial, (Option.some.inj h).symm⟩
  induction n with
  | zero => exact honce.post (fun _ _ _ h => h) fun _ _ _ h => h ▸ .refl w
  | succ n ih =>
      apply Safe.handle
      refine honce.post (fun _ _ _ h => h) ?_
      rintro e w' - rfl
      split
      · exact ih
      · exact ⟨trivial, .refl _⟩

theorem booked_deliverMessage (tgt : Conn) (targetFolder envelope : String) (raw : Bytes) (w : Books) :
    Safe (anyServers ctx folders) .free (fun o => Delivered o w) (fun _ => Still w)
      (deliverMessage ctx tgt targetFolder envelope raw) w := by
  have hdate : (dateOf ctx envelope).Only Neutral := by
    unfold dateOf
    dsimp only
    repeat' split
    all_goals trivial
  apply Safe.bind
  refine (safe_neutral hdate w).post ?_ fun _ _ _ h => h
  intro date w₁ _ h₁
  apply Safe.bind
  refine (safe_neutral (only_ensureMailbox (c := tgt) trivial trivial trivial) w₁).post ?_
    fun _ _ _ h => h₁.trans h
  intro _ w₂ _ h₂
  have h := h₁.trans h₂
  apply Safe.handle
  apply Safe.bind
  refine (booked_retry_append ..).post ?_ ?_
  · intro status w₃ _ h₃
    exact ⟨trivial, .after h h₃⟩
  · intro e w₃ _ h₃
    split
    · exact ⟨trivial, .of_still (h.trans h₃) nofun⟩
    · exact ⟨trivial, h.trans h₃⟩

theorem booked_restoreSingleMessage (src tgt : Conn) (uid : ℕ) (targetFolder : String)
    (existing : List String) (w : Books) :
    Safe (anyServers ctx folders) .free (fun o => Delivered o w) (fun _ => Still w)
      (restoreSingleMessage ctx src tgt uid targetFolder existing) w := by
  have hfetch : (RestoreTask.fetch src ctx.job.byUid uid).Only Neutral := Prog.Only.op trivial
  apply Safe.bind
  refine (safe_neutral hfetch w).post ?_ fun _ _ _ h => h
  intro reply w₁ _ h
  split
  · exact ⟨trivial, .of_still h nofun⟩
  · split
    · exact ⟨trivial, .of_still h nofun⟩
    · split
      · exact ⟨trivial, .of_still h nofun⟩
      · exact (booked_deliverMessage ..).post (fun _ _ _ h' => .after h h') fun _ _ _ h' => h.trans h'

/-- Connections on the sides that they are for. -/
def Session.Sided (s : Session) : Prop := s.src.side = .source ∧ s.tgt.side = .target

theorem safe_connect (side : Side) (w : Books) :
    Safe (anyServers ctx folders) .free (fun c w' => Conn.side c = side ∧ Still w w')
      (fun _ => Still w) (RestoreTask.connect side) w := by
  refine Safe.op trivial trivial ?_ ?_
  · intro c w' h
    obtain ⟨hc, h⟩ := Option.ite_none_right_eq_some.mp h
    exact ⟨trivial, hc, Option.some.inj h ▸ .refl w⟩
  · intro e w' h
    exact ⟨trivial, Option.some.inj h ▸ .refl w⟩

theorem booked_reconnectSource (fullFolder : String) {s : Session} (hs : s.Sided) (w : Books) :
    Safe (anyServers ctx folders) .free (fun r w' => r.1.Sided ∧ Still w w')
      (fun _ _ => False) (reconnectSource ctx fullFolder s) w := by
  unfold reconnectSource
  split
  · apply Safe.bind
    refine (safe_attempt (F := fun _ _ => False) (safe_connect .source w)).post ?_ fun _ _ _ h => h
    intro r w₁ _ h
    cases r with
    | error e => exact ⟨trivial, hs, h.2 e rfl⟩
    | ok src =>
        obtain ⟨hsrc, h₁⟩ := h.1 src rfl
        have hsided : Session.Sided { s with src := src } := ⟨hsrc, hs.2⟩
        have hselect : (RestoreTask.select src (Staging.quoted fullFolder) true).Only Neutral :=
          Prog.Only.op trivial
        apply Safe.bind
        refine (safe_attempt (F := fun _ _ => False) (safe_neutral hselect w₁)).post ?_
          fun _ _ _ h => h
        intro r w₂ _ h₂
        cases r with
        | error e => exact ⟨trivial, hsided, h₁.trans (h₂.2 e rfl)⟩
        | ok reply => exact ⟨trivial, hsided, h₁.trans (h₂.1 reply rfl)⟩
  · exact ⟨trivial, hs, .refl w⟩

theorem booked_reconnectTarget {s : Session} (hs : s.Sided) (w : Books) :
    Safe (anyServers ctx folders) .free (fun r w' => r.1.Sided ∧ Still w w')
      (fun _ _ => False) (reconnectTarget ctx s) w := by
  unfold reconnectTarget
  split
  · apply Safe.bind
    refine (safe_attempt (F := fun _ _ => False) (safe_connect .target w)).post ?_ fun _ _ _ h => h
    intro r w₁ _ h
    cases r with
    | error e => exact ⟨trivial, hs, h.2 e rfl⟩
    | ok tgt =>
        obtain ⟨htgt, h₁⟩ := h.1 tgt rfl
        exact ⟨trivial, ⟨hs.1, htgt⟩, h₁⟩
  · exact ⟨trivial, hs, .refl w⟩

theorem booked_reconnect (fullFolder : String) {s : Session} (hs : s.Sided) (w : Books) :
    Safe (anyServers ctx folders) .free (fun r w' => r.1.Sided ∧ Still w w')
      (fun _ _ => False) (reconnect ctx fullFolder s) w := by
  apply Safe.bind
  refine (booked_reconnectSource fullFolder hs w).post ?_ fun _ _ _ h => h
  rintro r w₁ - ⟨hr, h₁⟩
  split
  · exact (booked_reconnectTarget hr w₁).post (fun _ _ _ h => ⟨h.1, h₁.trans h.2⟩) fun _ _ _ h => h
  · exact ⟨trivial, hr, h₁⟩

/-! ## The loops -/

/-- The counters after `n` messages of a loop that began at `w`. -/
structure Counted (n : ℕ) (w w' : Books) : Prop where
  due : w'.due = w.due
  recorded : w'.recorded.length = w.recorded.length + n
  balance : w'.recorded.count .restored + w.accepted = w'.accepted + w.recorded.count .restored

theorem Counted.of_still (h : Still w w') : Counted 0 w w' :=
  ⟨h.due, by rw [h.recorded, Nat.add_zero], by rw [h.recorded, h.accepted, Nat.add_comm]⟩

theorem Counted.trans {m n : ℕ} {w₁ w₂ w₃ : Books} (h : Counted m w₁ w₂) (h' : Counted n w₂ w₃) :
    Counted (m + n) w₁ w₃ := by
  refine ⟨h'.due.trans h.due, ?_, ?_⟩
  · rw [h'.recorded, h.recorded, Nat.add_assoc]
  · have hfirst := h.balance
    have hsecond := h'.balance
    omega

theorem Delivered.counted {o : Outcome} (h : Delivered o w w') : Counted 1 w (w'.note o) := by
  refine ⟨h.due, by simp [Books.note, h.recorded], ?_⟩
  simp only [Books.note, List.count_append, h.recorded, h.accepted]
  cases o <;> simp <;> omega

theorem booked_record {o : Outcome} {s : Session} (hs : s.Sided) {E : Failure → Books → Prop}
    (h : Delivered o w w') :
    Safe (anyServers ctx folders) .free (fun s v => Session.Sided s ∧ Counted 1 w v) E
      ((RestoreTask.record o).bind fun _ => Prog.ret s) w' := by
  apply Safe.bind
  refine Safe.op trivial trivial ?_ nofun
  intro _ v hv
  obtain rfl := Option.some.inj hv
  exact ⟨trivial, trivial, hs, h.counted⟩

/-- Whatever happens to a message, one counter goes up by one. -/
theorem booked_restoreMessage (fullFolder targetFolder : String) (existing : List String) (uid : ℕ)
    {s : Session} (hs : s.Sided) (w : Books) :
    Safe (anyServers ctx folders) .free (fun s w' => Session.Sided s ∧ Counted 1 w w')
      (fun _ _ => False) (restoreMessage ctx fullFolder targetFolder existing uid s) w := by
  apply Safe.bind
  refine (safe_attempt (F := fun _ _ => False) (booked_restoreSingleMessage ..)).post ?_
    fun _ _ _ h => h
  intro r w₁ _ h
  cases r with
  | ok o => exact booked_record hs (h.1 o rfl)
  | error e =>
      have h₁ := h.2 e rfl
      dsimp only
      split
      · apply Safe.bind
        refine (booked_reconnect fullFolder hs w₁).post ?_ fun _ _ _ h => h
        rintro r w₂ - ⟨hr, h₂⟩
        split
        · apply Safe.bind
          refine (safe_attempt (F := fun _ _ => False) (booked_restoreSingleMessage ..)).post ?_
            fun _ _ _ h => h
          intro r' w₃ _ h₃
          cases r' with
          | ok o => exact booked_record hr (.after (h₁.trans h₂) (h₃.1 o rfl))
          | error e' => exact booked_record hr (.of_still ((h₁.trans h₂).trans (h₃.2 e' rfl)) nofun)
        · exact booked_record hr (.of_still (h₁.trans h₂) nofun)
      · exact booked_record hs (.of_still h₁ nofun)

/-- No message is counted twice, and every one is when the loop was not stopped. -/
theorem booked_restoreMessages (fullFolder targetFolder : String) (existing : List String)
    (uidFilter : Option (List ℕ)) (uids : List ℕ) {s : Session} (hs : s.Sided) (w : Books) :
    Safe (anyServers ctx folders) .free
      (fun r w' => ∃ n, n ≤ (uids.filter fun uid => !passesOver uidFilter uid).length ∧
        Counted n w w' ∧ ∀ s ∈ r, Session.Sided s ∧
          n = (uids.filter fun uid => !passesOver uidFilter uid).length)
      (fun _ _ => False)
      (restoreMessages ctx fullFolder targetFolder existing uidFilter uids s) w := by
  induction uids generalizing s w with
  | nil =>
      refine ⟨trivial, 0, Nat.le_refl 0, .of_still (.refl w), ?_⟩
      rintro s' ⟨⟩
      exact ⟨hs, rfl⟩
  | cons uid uids ih =>
      apply Safe.bind
      refine Safe.op trivial trivial ?_ ?_
      · intro stop w₁ h
        obtain rfl := Option.some.inj h
        refine ⟨trivial, ?_⟩
        split
        · exact ⟨trivial, 0, Nat.zero_le _, .of_still (.refl w), nofun⟩
        · split
          · rename_i hpass
            rw [List.filter_cons_of_neg (by simp [hpass])]
            exact ih hs w
          · rename_i hpass
            rw [List.filter_cons_of_pos (by simpa using hpass), List.length_cons]
            apply Safe.bind
            refine (booked_restoreMessage fullFolder targetFolder existing uid hs w).post ?_
              fun _ _ _ h => h
            rintro s₁ w₁ - ⟨hs₁, hone⟩
            refine (ih hs₁ w₁).post ?_ fun _ _ _ h => h
            rintro r w₂ - ⟨n, hn, hcounted, hall⟩
            refine ⟨1 + n, by omega, hone.trans hcounted, fun s' hs' => ?_⟩
            obtain ⟨hsided, heq⟩ := hall s' hs'
            exact ⟨hsided, by omega⟩
      · intro e w₁ h
        cases h

/-- Every acceptance is on the counter of the restored ones, and nothing else. -/
structure Booked (w : Books) : Prop where
  restored : w.recorded.count .restored = w.accepted
  counted : w.recorded.length ≤ w.due

/-- All that was listed is counted. -/
structure AllBooked (w : Books) : Prop extends Booked w where
  all : w.recorded.length = w.due

theorem AllBooked.of_still (h : AllBooked w) (h' : Still w w') : AllBooked w' := by
  refine ⟨⟨?_, ?_⟩, ?_⟩
  · rw [h'.recorded, h'.accepted]
    exact h.restored
  · rw [h'.recorded, h'.due]
    exact h.counted
  · rw [h'.recorded, h'.due]
    exact h.all

/-- A list of messages of which `n` were counted. -/
theorem Counted.booked {n : ℕ} {uids : List ℕ} (h : AllBooked w)
    (hcounted : Counted n (w.list ctx folders uids) w')
    (hn : n ≤ (uids.filter (isDue ctx folders w.current)).length) :
    Booked w' ∧ (n = (uids.filter (isDue ctx folders w.current)).length → AllBooked w') := by
  have hdue := hcounted.due
  have hlength := hcounted.recorded
  have hbalance := hcounted.balance
  have hrestored := h.restored
  have hall := h.all
  simp only [Books.list] at hdue hlength hbalance
  have hbooked : Booked w' := ⟨by omega, by omega⟩
  exact ⟨hbooked, fun heq => ⟨hbooked, by omega⟩⟩

/-- The part of a name that decides about the filter follows from the full name. -/
def Shortened (folders : List (String × String)) : Prop :=
  ∀ f ∈ folders, ∀ g ∈ folders, f.1 = g.1 → f.2 = g.2

variable (ctx) in
theorem isDue_quoted (hshort : Shortened folders) {folder : String × String}
    (hfolder : folder ∈ folders) :
    isDue ctx folders (Staging.quoted folder.1) = fun uid => !passesOver (uidFilter ctx folder.2) uid := by
  funext uid
  rw [Bool.eq_iff_iff, isDue, List.any_eq_true]
  constructor
  · rintro ⟨f, hf, h⟩
    obtain ⟨hquoted, hpass⟩ := Bool.and_eq_true_iff.mp h
    rwa [hshort f hf folder hfolder (quoted_inj (of_decide_eq_true hquoted))] at hpass
  · intro h
    exact ⟨folder, hfolder, by simpa using h⟩

theorem safe_existingIds {tgt : Conn} (htgt : tgt.side = .target) (shortFolder : String) (w : Books) :
    Safe (anyServers ctx folders) .free (fun _ => Still w) (fun _ => Still w)
      (existingIds ctx tgt shortFolder) w := by
  refine safe_neutral ?_ w
  unfold existingIds
  split
  · exact only_existingMessageIds trivial trivial htgt fun _ => trivial
  · trivial

/-- What a folder hands on. -/
def PassedOn (r : Option Session) (w : Books) : Prop :=
  Booked w ∧ ∀ s ∈ r, Session.Sided s ∧ AllBooked w

theorem booked_restoreFolder (hshort : Shortened folders) {folder : String × String}
    (hfolder : folder ∈ folders) {s : Session} (hs : s.Sided) (h : AllBooked w) :
    Safe (anyServers ctx folders) .free PassedOn (fun _ => Booked) (restoreFolder ctx folder s) w := by
  have hon : ∀ {w'}, AllBooked w' → PassedOn (some s) w' := by
    intro w' h'
    refine ⟨h'.toBooked, ?_⟩
    rintro s' ⟨⟩
    exact ⟨hs, h'⟩
  apply Safe.bind
  refine Safe.op trivial trivial ?_ ?_
  · intro reply w₁ hr
    obtain rfl := Option.some.inj hr
    rw [if_pos hs.1]
    have h₁ : AllBooked { w with current := Staging.quoted folder.1 } := ⟨⟨h.1.1, h.1.2⟩, h.2⟩
    refine ⟨trivial, ?_⟩
    split
    · exact ⟨trivial, hon h₁⟩
    · apply Safe.bind
      refine Safe.op trivial trivial ?_ ?_
      · rintro ⟨status, uids⟩ w₂ hr
        have hw₂ := (Option.some.inj hr).symm
        refine ⟨trivial, ?_⟩
        by_cases hstatus : status = "OK"
        · rw [if_pos ⟨hs.1, hstatus⟩] at hw₂
          subst hw₂
          have hdue := isDue_quoted ctx hshort hfolder
          split
          · rename_i hnone
            have huids : uids = [] := hnone.resolve_left fun hne => hne hstatus
            subst huids
            have hsame : Still { w with current := Staging.quoted folder.1 }
                (Books.list ctx folders { w with current := Staging.quoted folder.1 } []) :=
              ⟨rfl, rfl, rfl⟩
            exact ⟨trivial, hon (h₁.of_still hsame)⟩
          · apply Safe.bind
            refine (safe_existingIds hs.2 folder.2 _).post ?_ ?_
            · intro existing w₃ _ hstill
              refine (booked_restoreMessages _ _ existing (uidFilter ctx folder.2) uids hs w₃).post ?_
                fun _ _ _ h => h.elim
              rintro r w₄ - ⟨n, hn, hcounted, hall⟩
              rw [← hdue] at hn hall
              have hcounted' := (Counted.of_still hstill).trans hcounted
              rw [Nat.zero_add] at hcounted'
              obtain ⟨hbooked, hcomplete⟩ := Counted.booked h₁ hcounted' hn
              exact ⟨hbooked, fun s' hs' => ⟨(hall s' hs').1, hcomplete (hall s' hs').2⟩⟩
            · intro e w₃ _ hstill
              exact (Counted.booked h₁ (.of_still hstill) (Nat.zero_le _)).1
        · rw [if_neg fun hc => hstatus hc.2] at hw₂
          subst hw₂
          rw [if_pos (.inl hstatus)]
          exact ⟨trivial, hon h₁⟩
      · intro e w₂ hr
        obtain rfl := Option.some.inj hr
        exact ⟨trivial, h₁.toBooked⟩
  · intro e w₁ hr
    obtain rfl := Option.some.inj hr
    rw [if_pos hs.1]
    exact ⟨trivial, h.1.1, h.1.2⟩

theorem booked_restoreFolders (hshort : Shortened folders) (rest : List (String × String))
    (hrest : rest ⊆ folders) {s : Session} (hs : s.Sided) (h : AllBooked w) :
    Safe (anyServers ctx folders) .free PassedOn (fun _ => Booked) (restoreFolders ctx rest s) w := by
  induction rest generalizing s w with
  | nil =>
      refine ⟨trivial, h.toBooked, ?_⟩
      rintro s' ⟨⟩
      exact ⟨hs, h⟩
  | cons folder rest ih =>
      apply Safe.bind
      refine Safe.op trivial trivial ?_ ?_
      · intro stop w₁ hr
        obtain rfl := Option.some.inj hr
        refine ⟨trivial, ?_⟩
        split
        · exact ⟨trivial, h.toBooked, nofun⟩
        · apply Safe.bind
          refine (booked_restoreFolder hshort (hrest (.head _)) hs h).post ?_ fun _ _ _ h => h
          rintro r w₂ - ⟨hbooked, hall⟩
          cases r with
          | none => exact ⟨trivial, hbooked, nofun⟩
          | some s₂ =>
              obtain ⟨hs₂, h₂⟩ := hall s₂ rfl
              exact ih (fun f hf => hrest (.tail _ hf)) hs₂ h₂
      · intro e w₁ hr
        cases hr

theorem only_countMessages (src : Conn) (l : List (String × String)) :
    (countMessages src l).Only Neutral := by
  induction l with
  | nil => trivial
  | cons folder l ih =>
      exact Prog.Only.bind (Prog.Only.op trivial) fun _ => Prog.Only.bind ih fun _ => trivial

/-- The short names of a job's folders are made from the full ones. -/
theorem shortened_resolveFolders (job : RestoreJob) (namespacePrefix : String)
    (listing : List String) : Shortened (resolveFolders job namespacePrefix listing) := by
  intro f hf g hg hfull
  unfold resolveFolders at hf hg
  split at hf
  · rename_i hbyUid
    rw [if_pos hbyUid] at hg
    obtain ⟨a, -, rfl⟩ := List.mem_map.mp hf
    obtain ⟨b, -, rfl⟩ := List.mem_map.mp hg
    exact hfull
  · rename_i hbyUid
    rw [if_neg hbyUid] at hg
    have hlisted : ∀ x ∈ (if job.selectedFolders ≠ [] then
        ((listing.filter fun line => line ≠ "").filterMap (listedFolder namespacePrefix)).filter
          fun folder => folder.2 ∈ job.selectedFolders
        else (listing.filter fun line => line ≠ "").filterMap (listedFolder namespacePrefix)),
        ∃ line, listedFolder namespacePrefix line = some x := by
      intro x hx
      split at hx
      · obtain ⟨line, -, hline⟩ := List.mem_filterMap.mp (List.mem_of_mem_filter hx)
        exact ⟨line, hline⟩
      · obtain ⟨line, -, hline⟩ := List.mem_filterMap.mp hx
        exact ⟨line, hline⟩
    obtain ⟨l, hl⟩ := hlisted f hf
    obtain ⟨m, hm⟩ := hlisted g hg
    obtain ⟨name, -, rfl⟩ := Option.map_eq_some_iff.mp hl
    obtain ⟨name', -, rfl⟩ := Option.map_eq_some_iff.mp hm
    dsimp only at hfull ⊢
    rw [String.ofList_inj.mp hfull]

def countingContext : Context where
  job := { skipDuplicates := false }
  messageId := fun _ => none
  internalDate := fun _ => none

def halfAccepting (o : RestoreOp) (w : Books) : Except Failure (RestoreAns o) :=
  match o with
  | .connect side => .ok (show Conn from ⟨side, 2⟩)
  | .select .. => .ok (show String × ℕ from ("OK", 2))
  | .search .. => .ok (show String × List ℕ from ("OK", [1, 2]))
  | .fetch .. => .ok (show String × Option (String × Bytes) from ("OK", some ("", [65])))
  | .fetchHeader .. => .ok (show String × Option String from ("OK", none))
  | .append .. => if w.accepted = 0 then .ok (show String from "OK") else .error (.abort true)
  | .cancelled => .ok false
  | .close _ | .create .. | .record _ => .ok ()

end MailFallback.Restore
