import MailFallback.Restore.Network

/-! # Selected messages

Which messages a restore hands over, whatever the target answers and wherever connections are
lost. -/

namespace MailFallback.Restore

open Effects Storage Staging

variable {content : String → Mailbox} {w w₀ : World} {x : StoredMessage}

/-- What the target has taken, in order, and that each message is the one of the source. -/
structure Tally (content : String → Mailbox) (byUid : Bool) (part : List (String × ℕ)) (w : World) :
    Prop where
  sublist : (w.stored.map fun m => (m.mailbox, m.id)).Sublist part
  faithful : ∀ m ∈ w.stored, (content m.mailbox).message? byUid m.id = some m.raw

theorem Tally.mono {byUid : Bool} {part part' : List (String × ℕ)} (h : Tally content byUid part w)
    (hpart : part.Sublist part') : Tally content byUid part' w :=
  ⟨h.sublist.trans hpart, h.faithful⟩

theorem Undisturbed.tally {byUid : Bool} {part : List (String × ℕ)} (hu : Undisturbed w₀ w)
    (h : Tally content byUid part w₀) : Tally content byUid part w := by
  obtain ⟨hsub, hfaith⟩ := h
  exact ⟨by rwa [hu.stored], by rwa [hu.stored]⟩

/-! ## One message -/

/-- The message is with the target or is not; if the worker asks again, it is not or no answer
will come. -/
inductive Handing (tgt : Conn) (w₀ : World) (x : StoredMessage) (w : World) : Prop where
  | unsent (h : Undisturbed w₀ w)
  | sent (hselected : ∀ c : Conn, c.side = .source → w.selected c = w₀.selected c)
      (hstored : w.stored = w₀.stored ++ [x]) (hdead : tgt ∈ w.dead)

/-- After the last attempt. -/
structure Handed (w₀ : World) (x : StoredMessage) (w : World) : Prop where
  selected : ∀ c : Conn, c.side = .source → w.selected c = w₀.selected c
  stored : w.stored = w₀.stored ∨ w.stored = w₀.stored ++ [x]

theorem Handing.handed {tgt : Conn} (h : Handing tgt w₀ x w) : Handed w₀ x w := by
  cases h with
  | unsent h => exact ⟨h.selected, .inl h.stored⟩
  | sent hselected hstored _ => exact ⟨hselected, .inr hstored⟩

section Append

variable {tgt : Conn} {target : String} {flags date : Option String} {raw : Bytes}
  (hx : x = ⟨w₀.fetched.1, w₀.fetched.2, target, raw⟩)
include hx

/-- One APPEND. Nothing is sent if an exception comes out that is not tried again. -/
theorem safe_append (h : Handing tgt w₀ x w) :
    Safe (network content) ⟨Handed w₀ x, fun _ _ => True⟩ (fun _ => Handed w₀ x)
      (fun e w' => Handing tgt w₀ x w' ∧ (e.isImap = false ∧ e.isLost = false → Undisturbed w₀ w'))
      (RestoreTask.append tgt target flags date raw) w := by
  refine Safe.op h.handed trivial ?_ ?_
  · intro status w' hr
    obtain ⟨halive, hr⟩ := answering_eq hr
    obtain rfl := Option.some.inj hr
    cases h with
    | sent _ _ hdead => exact absurd hdead halive
    | unsent h =>
        have hhanded : Handed w₀ x (appending w target raw status) := by
          unfold appending
          split
          · refine ⟨h.selected, .inr ?_⟩
            simp only [World.store, h.stored, h.fetched, hx]
          · exact ⟨h.selected, .inl h.stored⟩
        exact ⟨hhanded, hhanded⟩
  · intro e w' hr
    have hr : failing tgt e w (w.store target raw) = some w' := hr
    unfold failing at hr
    by_cases hdead : tgt ∈ w.dead
    · rw [if_pos hdead] at hr
      split at hr
      · obtain rfl := Option.some.inj hr
        refine ⟨h.handed, h, ?_⟩
        rintro ⟨himap, hlost⟩
        rcases ‹e = _ ∨ e = _› with rfl | rfl <;> cases hlost
      · cases hr
    · rw [if_neg hdead] at hr
      cases h with
      | sent _ _ hdead' => exact absurd hdead' hdead
      | unsent h =>
          have hlost : ∀ done : Bool,
              Handing tgt w₀ x ((if done = true then w.store target raw else w).lose tgt) := by
            intro done
            cases done with
            | false => exact .unsent (h.trans (.lose w tgt))
            | true =>
                refine .sent h.selected ?_ (List.mem_cons_self)
                simp [World.lose, World.store, h.stored, h.fetched, hx]
          cases e with
          | refused =>
              obtain rfl := Option.some.inj hr
              exact ⟨⟨h.selected, .inl h.stored⟩, .unsent h, fun _ => h⟩
          | value =>
              obtain rfl := Option.some.inj hr
              exact ⟨⟨h.selected, .inl h.stored⟩, .unsent h, fun _ => h⟩
          | abort done =>
              obtain rfl := Option.some.inj hr
              exact ⟨(hlost done).handed, hlost done, fun h => by cases h.2⟩
          | os done =>
              obtain rfl := Option.some.inj hr
              exact ⟨(hlost done).handed, hlost done, fun h => by cases h.2⟩

/-- However often the worker asks, the target takes the message at most once. -/
theorem safe_retry_append (n : ℕ) (h : Handing tgt w₀ x w) :
    Safe (network content) ⟨Handed w₀ x, fun _ _ => True⟩ (fun _ => Handed w₀ x)
      (fun e w' => Handing tgt w₀ x w' ∧ (e.isImap = false ∧ e.isLost = false → Undisturbed w₀ w'))
      (retry (RestoreTask.append tgt target flags date raw) n) w := by
  induction n generalizing w with
  | zero => exact safe_append hx h
  | succ n ih =>
      refine Safe.handle ((safe_append hx h).post (fun _ _ _ h => h) ?_)
      intro e w' hc ⟨hhanding, hraise⟩
      by_cases he : e.isImap = true ∨ e.isLost = true
      · rw [if_pos he]
        exact ih hhanding
      · rw [if_neg he]
        exact ⟨hc, hhanding, hraise⟩

end Append

/-- A message that has been read is handed over at most once, and not at all if an exception
comes out. -/
theorem safe_deliverMessage (ctx : Context) {tgt : Conn} (htgt : tgt.side = .target)
    (target envelope : String) (raw : Bytes)
    (hx : x = ⟨w₀.fetched.1, w₀.fetched.2, Staging.quoted target, raw⟩) :
    Safe (network content) ⟨Handed w₀ x, fun _ _ => True⟩ (fun _ => Handed w₀ x)
      (fun _ => Undisturbed w₀) (deliverMessage ctx tgt target envelope raw) w₀ := by
  have hundisturbed : ∀ w, Undisturbed w₀ w → Handed w₀ x w :=
    fun w h => ⟨h.selected, .inl h.stored⟩
  have hdate : (dateOf ctx envelope).Only OnTarget := by
    unfold dateOf
    dsimp only
    split
    · split
      · split <;> trivial
      · trivial
    · trivial
  apply Safe.bind
  refine (Undisturbed.safe hdate w₀).mono hundisturbed (fun _ _ _ => trivial) ?_
    fun _ _ _ h => h
  intro date w₁ _ h₁
  have hensure : (ensureMailbox tgt target).Only OnTarget :=
    only_ensureMailbox htgt htgt htgt
  apply Safe.bind
  refine (Undisturbed.safe hensure w₁).mono (fun w h => hundisturbed w (h₁.trans h))
    (fun _ _ _ => trivial) ?_ fun _ _ _ h => h₁.trans h
  intro _ w₂ _ h₂
  apply Safe.handle
  apply Safe.bind
  refine (safe_retry_append hx 2 (.unsent (h₁.trans h₂))).post ?_ ?_
  · intro status w₃ hc h₃
    exact ⟨hc, h₃⟩
  · intro e w₃ hc ⟨_, hraise⟩
    by_cases he : e.isImap = true ∨ e.isLost = true
    · rw [if_pos he]
      exact ⟨hc, hc⟩
    · rw [if_neg he]
      simp only [not_or, Bool.not_eq_true] at he
      exact ⟨hc, hraise he⟩

/-- The connections of the worker. -/
structure Session.Sides (s : Session) : Prop where
  src : s.src.side = .source
  tgt : s.tgt.side = .target

/-- The source has at most this mailbox selected. -/
def Reads (c : Conn) (mailbox : String) (w : World) : Prop := ∀ m ∈ w.selected c, m = mailbox

theorem Undisturbed.reads {c : Conn} (hc : c.side = .source) {mailbox : String}
    (hu : Undisturbed w₀ w) (h : Reads c mailbox w₀) : Reads c mailbox w := by
  unfold Reads
  rwa [hu.selected c hc]

/-- One message of the source: with its attempt it may come to the target, once. -/
structure Tried (content : String → Mailbox) (byUid : Bool) (part : List (String × ℕ)) (c : Conn)
    (mailbox : String) (w : World) : Prop where
  tally : Tally content byUid part w
  reads : Reads c mailbox w

theorem Undisturbed.tried {byUid : Bool} {part : List (String × ℕ)} {c : Conn} {mailbox : String}
    (hc : c.side = .source) (hu : Undisturbed w₀ w) (h : Tried content byUid part c mailbox w₀) :
    Tried content byUid part c mailbox w :=
  ⟨hu.tally h.tally, hu.reads hc h.reads⟩

theorem Handed.tried {byUid : Bool} {part : List (String × ℕ)} {c : Conn} {mailbox : String}
    {id : ℕ} (hc : c.side = .source) (h : Tried content byUid part c mailbox w₀)
    (hx : x.mailbox = mailbox ∧ x.id = id)
    (hraw : (content mailbox).message? byUid id = some x.raw) (hh : Handed w₀ x w) :
    Tried content byUid (part ++ [(mailbox, id)]) c mailbox w := by
  have hreads : Reads c mailbox w := by
    unfold Reads
    rw [hh.selected c hc]
    exact h.reads
  rcases hh.stored with hstored | hstored
  · refine ⟨⟨?_, ?_⟩, hreads⟩
    · rw [hstored]
      exact h.tally.sublist.trans (List.sublist_append_left _ _)
    · rw [hstored]
      exact h.tally.faithful
  · refine ⟨⟨?_, ?_⟩, hreads⟩
    · rw [hstored, List.map_append, List.map_singleton, hx.1, hx.2]
      exact List.Sublist.append h.tally.sublist (List.Sublist.refl _)
    · rw [hstored, List.forall_mem_append, List.forall_mem_singleton, hx.1, hx.2]
      exact ⟨h.tally.faithful, hraw⟩

theorem fetching_eq {byUid : Bool} {c : Conn} {mailbox : String} {id : ℕ}
    {reply : String × Option (String × Bytes)} (hreads : Reads c mailbox w₀)
    (h : fetching content c byUid id w₀ reply = some w) :
    w = { w₀ with fetched := (mailbox, id) } ∧
      ∀ data ∈ reply.2, (content mailbox).message? byUid id = some data.2 := by
  unfold fetching at h
  cases hsel : w₀.selected c with
  | none => simp [hsel] at h
  | some m =>
      obtain rfl := hreads m hsel
      simp only [hsel] at h
      split at h
      · exact ⟨(Option.some.inj h).symm, ‹_›⟩
      · cases h

/-- What an attempt at a message promises: an exception leaves nothing at the target. -/
theorem safe_restoreSingleMessage (ctx : Context) {src tgt : Conn} (hsrc : src.side = .source)
    (htgt : tgt.side = .target) (uid : ℕ) (target : String) (existing : List String)
    {part : List (String × ℕ)} {mailbox : String}
    (h : Tried content ctx.job.byUid part src mailbox w₀) :
    Safe (network content) ⟨Tried content ctx.job.byUid (part ++ [(mailbox, uid)]) src mailbox,
        fun _ _ => True⟩
      (fun _ => Tried content ctx.job.byUid (part ++ [(mailbox, uid)]) src mailbox)
      (fun _ => Tried content ctx.job.byUid part src mailbox)
      (restoreSingleMessage ctx src tgt uid target existing) w₀ := by
  have hmono : ∀ w, Tried content ctx.job.byUid part src mailbox w →
      Tried content ctx.job.byUid (part ++ [(mailbox, uid)]) src mailbox w :=
    fun w h => ⟨h.tally.mono (List.sublist_append_left _ _), h.reads⟩
  apply Safe.bind
  refine Safe.op (hmono _ h) trivial ?_ ?_
  · intro reply w hr
    obtain ⟨-, hr⟩ := answering_eq hr
    obtain ⟨hfetched, hdata⟩ := fetching_eq h.reads hr
    have htried : Tried content ctx.job.byUid part src mailbox w := by
      rw [hfetched]
      exact ⟨⟨h.tally.sublist, h.tally.faithful⟩, h.reads⟩
    by_cases hok : reply.1 ≠ "OK"
    · rw [if_pos hok]
      exact ⟨hmono w htried, hmono w htried, hmono w htried⟩
    rw [if_neg hok]
    refine ⟨hmono w htried, ?_⟩
    cases hreply : reply.2 with
    | none => exact ⟨hmono w htried, hmono w htried⟩
    | some data =>
      obtain ⟨envelope, raw⟩ := data
      have hraw := hdata (envelope, raw) hreply
      dsimp only
      split
      · exact ⟨hmono w htried, hmono w htried⟩
      · have hx : (⟨mailbox, uid, Staging.quoted target, raw⟩ : StoredMessage) =
            ⟨w.fetched.1, w.fetched.2, Staging.quoted target, raw⟩ := by rw [hfetched]
        refine (safe_deliverMessage ctx htgt target envelope raw hx).mono ?_ (fun _ _ _ => trivial)
          ?_ ?_
        · exact fun w' hh => hh.tried hsrc htried ⟨rfl, rfl⟩ hraw
        · exact fun _ w' _ hh => hh.tried hsrc htried ⟨rfl, rfl⟩ hraw
        · exact fun _ w' _ hu => hu.tried hsrc htried
  · intro e w hr
    have htried := (Undisturbed.of_failing hr).tried hsrc h
    exact ⟨hmono w htried, htried⟩

/-! ## New connections -/

section Reconnecting

variable (ctx : Context) {s : Session} {byUid : Bool} {part : List (String × ℕ)} {full : String}

theorem Tried.fresh {side : Side} {c d : Conn} {mailbox : String}
    (hd : connecting side w₀ d = some w) (h : Tried content byUid part c mailbox w₀) :
    d.side = side ∧ Tried content byUid part c mailbox w ∧ Tried content byUid part d mailbox w := by
  unfold connecting at hd
  split at hd
  · obtain rfl := Option.some.inj hd
    obtain rfl := ‹d = _›
    refine ⟨rfl, ⟨⟨h.tally.sublist, h.tally.faithful⟩, ?_⟩,
      ⟨⟨h.tally.sublist, h.tally.faithful⟩, ?_⟩⟩
    · intro m hm
      by_cases hcd : c = ⟨side, w₀.next⟩
      · simp [World.choose, hcd] at hm
      · exact h.reads m (by simpa [World.choose, Function.update_of_ne hcd] using hm)
    · intro m hm
      simp [World.choose] at hm
  · cases hd

theorem Tried.select {c : Conn} (h : Tally content byUid part w₀) (status : String) :
    Tried content byUid part c (Staging.quoted full)
      (w₀.choose c (if status = "OK" then some (Staging.quoted full) else none)) := by
  refine ⟨⟨h.sublist, h.faithful⟩, ?_⟩
  intro m hm
  simp only [World.choose, Function.update_self] at hm
  split at hm
  · exact (Option.some.inj hm).symm
  · cases hm

/-- What holds of the connections and of the target between two messages. -/
structure Between (content : String → Mailbox) (byUid : Bool) (part : List (String × ℕ))
    (mailbox : String) (s : Session) (w : World) : Prop where
  sides : s.Sides
  tried : Tried content byUid part s.src mailbox w

theorem safe_reconnectSource (h : Between content byUid part (Staging.quoted full) s w₀) :
    Safe (network content) ⟨Tally content byUid part, fun _ _ => True⟩
      (fun r => Between content byUid part (Staging.quoted full) r.1) (fun _ _ => False)
      (reconnectSource ctx full s) w₀ := by
  unfold reconnectSource
  split
  · apply Safe.bind
    have hconnect : Safe (network content) ⟨Tally content byUid part, fun _ _ => True⟩
        (fun (c : Conn) w => c.side = .source ∧ Tried content byUid part c (Staging.quoted full) w)
        (fun _ => Tried content byUid part s.src (Staging.quoted full)) (RestoreTask.connect .source) w₀ := by
      refine Safe.op h.tried.tally trivial ?_ ?_
      · intro c w hr
        obtain ⟨hside, -, htried⟩ := h.tried.fresh hr
        exact ⟨htried.tally, hside, htried⟩
      · intro e w hr
        obtain rfl := Option.some.inj hr
        exact ⟨h.tried.tally, h.tried⟩
    refine (safe_attempt hconnect).post ?_ fun _ _ _ h => h
    intro r w hc hr
    cases r with
    | error e => exact ⟨hc, h.sides, hr.2 e rfl⟩
    | ok src =>
        obtain ⟨hside, htried⟩ := hr.1 src rfl
        have hsides : ({ s with src := src } : Session).Sides := ⟨hside, h.sides.tgt⟩
        dsimp only
        apply Safe.bind
        have hselect : Safe (network content) ⟨Tally content byUid part, fun _ _ => True⟩
            (fun (_ : String × ℕ) => Tried content byUid part src (Staging.quoted full))
            (fun _ => Tried content byUid part src (Staging.quoted full))
            (RestoreTask.select src (Staging.quoted full) true) w := by
          refine Safe.op hc trivial ?_ ?_
          · intro reply w' hr
            obtain ⟨-, hr⟩ := answering_eq hr
            obtain rfl := Option.some.inj hr
            have hsel := @Tried.select content w byUid part full src hc reply.1
            exact ⟨hsel.tally, hsel⟩
          · intro e w' hr
            have hsel := (Undisturbed.of_failing hr).tried hside htried
            exact ⟨hsel.tally, hsel⟩
        refine (safe_attempt hselect).post ?_ fun _ _ _ h => h
        intro r w' hc' hr'
        cases r with
        | error e => exact ⟨hc', hsides, hr'.2 e rfl⟩
        | ok reply => exact ⟨hc', hsides, hr'.1 reply rfl⟩
  · exact ⟨h.tried.tally, h⟩

theorem safe_reconnectTarget {mailbox : String} (h : Between content byUid part mailbox s w₀) :
    Safe (network content) ⟨Tally content byUid part, fun _ _ => True⟩
      (fun r => Between content byUid part mailbox r.1) (fun _ _ => False)
      (reconnectTarget ctx s) w₀ := by
  unfold reconnectTarget
  split
  · apply Safe.bind
    have hconnect : Safe (network content) ⟨Tally content byUid part, fun _ _ => True⟩
        (fun (c : Conn) w => c.side = .target ∧ Tried content byUid part s.src mailbox w)
        (fun _ => Tried content byUid part s.src mailbox) (RestoreTask.connect .target) w₀ := by
      refine Safe.op h.tried.tally trivial ?_ ?_
      · intro c w hr
        obtain ⟨hside, htried, -⟩ := h.tried.fresh hr
        exact ⟨htried.tally, hside, htried⟩
      · intro e w hr
        obtain rfl := Option.some.inj hr
        exact ⟨h.tried.tally, h.tried⟩
    refine (safe_attempt hconnect).post ?_ fun _ _ _ h => h
    intro r w hc hr
    cases r with
    | error e => exact ⟨hc, h.sides, hr.2 e rfl⟩
    | ok tgt =>
        obtain ⟨hside, htried⟩ := hr.1 tgt rfl
        exact ⟨hc, ⟨h.sides.src, hside⟩, htried⟩
  · exact ⟨h.tried.tally, h⟩

theorem safe_reconnect (h : Between content byUid part (Staging.quoted full) s w₀) :
    Safe (network content) ⟨Tally content byUid part, fun _ _ => True⟩
      (fun r => Between content byUid part (Staging.quoted full) r.1) (fun _ _ => False)
      (reconnect ctx full s) w₀ := by
  apply Safe.bind
  refine (safe_reconnectSource ctx h).post ?_ fun _ _ _ h => h
  intro r w hc hr
  split
  · exact safe_reconnectTarget ctx hr
  · exact ⟨hc, hr⟩

end Reconnecting

/-! ## Folders -/

section Loops

variable (ctx : Context) {s : Session} {part : List (String × ℕ)} {full : String}

theorem safe_record {C : Contract RestoreOp World} {E : Failure → World → Prop} (o : Outcome)
    (hallow : C.allow (.record o) w₀) (hc : C.crash w₀)
    (hc' : C.crash { w₀ with recorded := w₀.recorded ++ [o] }) :
    Safe (network content) C (fun _ w => w = { w₀ with recorded := w₀.recorded ++ [o] }) E
      (RestoreTask.record o) w₀ := by
  refine Safe.op hc hallow ?_ ?_
  · intro _ w hr
    obtain rfl := Option.some.inj hr
    exact ⟨hc', rfl⟩
  · intro e w hr
    cases hr

/-- A message is handed over at most once, also when a connection is lost over it. -/
theorem safe_restoreMessage (target : String) (existing : List String) (uid : ℕ)
    (h : Between content ctx.job.byUid part (Staging.quoted full) s w₀) :
    Safe (network content) ⟨Tally content ctx.job.byUid (part ++ [(Staging.quoted full, uid)]),
        fun _ _ => True⟩
      (Between content ctx.job.byUid (part ++ [(Staging.quoted full, uid)]) (Staging.quoted full))
      (fun _ _ => False) (restoreMessage ctx full target existing uid s) w₀ := by
  have hmono : ∀ w, Tally content ctx.job.byUid part w →
      Tally content ctx.job.byUid (part ++ [(Staging.quoted full, uid)]) w :=
    fun w h => h.mono (List.sublist_append_left _ _)
  have hbetween : ∀ s w, Between content ctx.job.byUid part (Staging.quoted full) s w →
      Between content ctx.job.byUid (part ++ [(Staging.quoted full, uid)]) (Staging.quoted full) s w :=
    fun s w h => ⟨h.sides, hmono w h.tried.tally, h.tried.reads⟩
  -- what is done with an outcome
  have hrecord : ∀ o s w, Between content ctx.job.byUid (part ++ [(Staging.quoted full, uid)])
      (Staging.quoted full) s w → Safe (network content)
        ⟨Tally content ctx.job.byUid (part ++ [(Staging.quoted full, uid)]), fun _ _ => True⟩
        (Between content ctx.job.byUid (part ++ [(Staging.quoted full, uid)]) (Staging.quoted full))
        (fun _ _ => False) ((RestoreTask.record o).bind fun _ => Prog.ret s) w := by
    intro o s w h
    have htally : Tally content ctx.job.byUid (part ++ [(Staging.quoted full, uid)])
        { w with recorded := w.recorded ++ [o] } := ⟨h.tried.tally.sublist, h.tried.tally.faithful⟩
    apply Safe.bind
    refine (safe_record o trivial h.tried.tally htally).post ?_ fun _ _ _ h => h
    rintro _ _ hc rfl
    exact ⟨hc, h.sides, htally, h.tried.reads⟩
  have htry : ∀ s w, Between content ctx.job.byUid part (Staging.quoted full) s w → Safe (network content)
      ⟨Tally content ctx.job.byUid (part ++ [(Staging.quoted full, uid)]), fun _ _ => True⟩
      (fun _ w => Between content ctx.job.byUid (part ++ [(Staging.quoted full, uid)]) (Staging.quoted full) s w)
      (fun _ w => Between content ctx.job.byUid part (Staging.quoted full) s w)
      (restoreSingleMessage ctx s.src s.tgt uid target existing) w := by
    intro s w h
    refine (safe_restoreSingleMessage ctx h.sides.src h.sides.tgt uid target existing
      h.tried).mono (fun w h => h.tally) (fun _ _ _ => trivial) ?_ ?_
    · exact fun _ w _ htried => ⟨h.sides, htried⟩
    · exact fun _ w _ htried => ⟨h.sides, htried⟩
  apply Safe.bind
  refine (safe_attempt (htry s w₀ h)).post ?_ fun _ _ _ h => h
  intro r w hc hr
  cases r with
  | ok outcome => exact hrecord outcome s w (hr.1 outcome rfl)
  | error e =>
      have h := hr.2 e rfl
      dsimp only
      by_cases hlost : e.isLost = true
      · rw [if_pos hlost]
        apply Safe.bind
        refine (safe_reconnect ctx h).mono hmono (fun _ _ _ => trivial) ?_ fun _ _ _ h => h
        rintro ⟨s', connected⟩ w' _ h'
        dsimp only
        split
        · apply Safe.bind
          refine (safe_attempt (htry s' w' h')).post ?_ fun _ _ _ h => h
          intro r w'' _ hr
          cases r with
          | ok outcome => exact hrecord outcome s' w'' (hr.1 outcome rfl)
          | error e => exact hrecord .failed s' w'' (hbetween s' w'' (hr.2 e rfl))
        · exact hrecord .failed s' w' (hbetween s' w' h')
      · rw [if_neg hlost]
        exact hrecord .failed s w (hbetween s w h)

/-- The messages that the filter lets through. -/
def chosen (mailbox : String) (uidFilter : Option (List ℕ)) (ids : List ℕ) : List (String × ℕ) :=
  (ids.filter fun id => !passesOver uidFilter id).map fun id => (mailbox, id)

theorem safe_cancelled {C : Contract RestoreOp World} {E : Failure → World → Prop}
    (hallow : C.allow .cancelled w₀) (hc : C.crash w₀) :
    Safe (network content) C (fun _ w => w = w₀) E RestoreTask.cancelled w₀ := by
  refine Safe.op hc hallow ?_ ?_
  · intro _ w hr
    obtain rfl := Option.some.inj hr
    exact ⟨hc, rfl⟩
  · intro e w hr
    cases hr

theorem safe_restoreMessages (target : String) (existing : List String)
    (uidFilter : Option (List ℕ)) (ids : List ℕ)
    (h : Between content ctx.job.byUid part (Staging.quoted full) s w₀) :
    Safe (network content)
      ⟨Tally content ctx.job.byUid (part ++ chosen (Staging.quoted full) uidFilter ids), fun _ _ => True⟩
      (fun r w => ∀ s' ∈ r, Between content ctx.job.byUid
        (part ++ chosen (Staging.quoted full) uidFilter ids) (Staging.quoted full) s' w)
      (fun _ _ => False) (restoreMessages ctx full target existing uidFilter ids s) w₀ := by
  induction ids generalizing s w₀ part with
  | nil =>
      have hnil : part ++ chosen (Staging.quoted full) uidFilter [] = part := List.append_nil part
      rw [hnil]
      refine ⟨h.tried.tally, ?_⟩
      rintro s' ⟨⟩
      exact h
  | cons id ids ih =>
      have hstart : Tally content ctx.job.byUid (part ++ chosen (Staging.quoted full) uidFilter (id :: ids))
          w₀ := h.tried.tally.mono (List.sublist_append_left _ _)
      apply Safe.bind
      refine (safe_cancelled trivial hstart).post ?_ fun _ _ _ h => h
      rintro stop w hc rfl
      split
      · exact ⟨hc, nofun⟩
      · by_cases hpass : passesOver uidFilter id = true
        · have hskip : chosen (Staging.quoted full) uidFilter (id :: ids) =
              chosen (Staging.quoted full) uidFilter ids := by simp [chosen, hpass]
          rw [if_pos hpass, hskip]
          exact ih h
        · have htake : part ++ chosen (Staging.quoted full) uidFilter (id :: ids) =
              part ++ [(Staging.quoted full, id)] ++ chosen (Staging.quoted full) uidFilter ids := by
            simp [chosen, hpass]
          rw [if_neg hpass, htake]
          apply Safe.bind
          refine (safe_restoreMessage ctx target existing id h).mono
            (fun w h => h.mono (List.sublist_append_left _ _)) (fun _ _ _ => trivial) ?_
            fun _ _ _ h => h
          exact fun s' w' _ h' => ih h'

/-- The messages of a folder that may be handed over. -/
def folderPart (content : String → Mailbox) (ctx : Context) (folder : String × String) :
    List (String × ℕ) :=
  chosen (Staging.quoted folder.1) (uidFilter ctx folder.2)
    ((content (Staging.quoted folder.1)).ids ctx.job.byUid)

theorem searching_eq {byUid : Bool} {c : Conn} {mailbox : String} {reply : String × List ℕ}
    (hc : c.side = .source) (hreads : Reads c mailbox w₀)
    (h : searching content c byUid w₀ reply = some w) :
    w = w₀ ∧ (reply.1 = "OK" → reply.2 = (content mailbox).ids byUid) := by
  unfold searching at h
  rw [hc] at h
  cases hsel : w₀.selected c with
  | none => simp [hsel] at h
  | some m =>
      obtain rfl := hreads m hsel
      simp only [hsel] at h
      split at h
      · exact ⟨(Option.some.inj h).symm, ‹_›⟩
      · cases h

theorem safe_restoreFolder (folder : String × String) (hs : s.Sides)
    (h : Tally content ctx.job.byUid part w₀) :
    Safe (network content)
      ⟨Tally content ctx.job.byUid (part ++ folderPart content ctx folder), fun _ _ => True⟩
      (fun r _ => ∀ s' ∈ r, s'.Sides) (fun _ _ => True) (restoreFolder ctx folder s) w₀ := by
  have hmono : ∀ w, Tally content ctx.job.byUid part w →
      Tally content ctx.job.byUid (part ++ folderPart content ctx folder) w :=
    fun w h => h.mono (List.sublist_append_left _ _)
  have hkeep : ∀ s' ∈ some s, s'.Sides := by
    rintro s' ⟨⟩
    exact hs
  apply Safe.bind
  refine Safe.op (hmono w₀ h) trivial ?_ fun e w hr =>
    ⟨hmono w ((Undisturbed.of_failing hr).tally h), trivial⟩
  intro reply w₁ hr
  have h₁ : Tried content ctx.job.byUid part s.src (Staging.quoted folder.1) w₁ := by
    obtain ⟨-, hr⟩ := answering_eq hr
    obtain rfl := Option.some.inj hr
    exact Tried.select h reply.1
  refine ⟨hmono _ h₁.tally, ?_⟩
  split
  · exact ⟨hmono _ h₁.tally, hkeep⟩
  apply Safe.bind
  refine Safe.op (hmono _ h₁.tally) trivial ?_ fun e w hr =>
    ⟨hmono w ((Undisturbed.of_failing hr).tally h₁.tally), trivial⟩
  intro found w₂ hr
  obtain ⟨-, hr⟩ := answering_eq hr
  obtain ⟨rfl, hids⟩ := searching_eq hs.src h₁.reads hr
  refine ⟨hmono _ h₁.tally, ?_⟩
  by_cases hfound : found.1 ≠ "OK" ∨ found.2 = []
  · rw [if_pos hfound]
    exact ⟨hmono _ h₁.tally, hkeep⟩
  rw [if_neg hfound]
  have hids := hids (not_not.mp (not_or.mp hfound).1)
  apply Safe.bind
  have hexisting : (existingIds ctx s.tgt folder.2).Only OnTarget := by
    unfold existingIds
    split
    · exact only_existingMessageIds hs.tgt hs.tgt hs.tgt fun _ => hs.tgt
    · trivial
  refine (Undisturbed.safe hexisting _).mono (fun w hu => hmono w (hu.tally h₁.tally))
    (fun _ _ _ => trivial) ?_ fun _ _ _ _ => trivial
  intro existing w₃ _ hu
  have h₃ : Between content ctx.job.byUid part (Staging.quoted folder.1) s w₃ :=
    ⟨hs, hu.tried hs.src h₁⟩
  have hmessages := safe_restoreMessages ctx (targetMailbox ctx folder.2) existing
    (uidFilter ctx folder.2) found.2 h₃
  rw [hids] at hmessages ⊢
  exact hmessages.post (fun r w _ hr s' hs' => (hr s' hs').sides) fun _ _ _ h => h.elim

theorem safe_restoreFolders (folders : List (String × String)) (hs : s.Sides)
    (h : Tally content ctx.job.byUid part w₀) :
    Safe (network content)
      ⟨Tally content ctx.job.byUid (part ++ folders.flatMap (folderPart content ctx)),
        fun _ _ => True⟩
      (fun _ _ => True) (fun _ _ => True) (restoreFolders ctx folders s) w₀ := by
  induction folders generalizing s part w₀ with
  | nil => exact ⟨h.mono (List.sublist_append_left _ _), trivial⟩
  | cons folder folders ih =>
      have hstart := h.mono (List.sublist_append_left part
        ((folder :: folders).flatMap (folderPart content ctx)))
      have hsplit : part ++ (folder :: folders).flatMap (folderPart content ctx) =
          part ++ folderPart content ctx folder ++ folders.flatMap (folderPart content ctx) := by
        simp
      apply Safe.bind
      refine (safe_cancelled trivial hstart).post ?_ fun _ _ _ h => h
      rintro stop w hc rfl
      split
      · exact ⟨hc, trivial⟩
      rw [hsplit]
      apply Safe.bind
      refine (safe_restoreFolder ctx folder hs h).mono
        (fun w h => h.mono (List.sublist_append_left _ _)) (fun _ _ _ => trivial) ?_
        fun _ _ _ _ => trivial
      intro r w' h' hr
      cases r with
      | none => exact ⟨h'.mono (List.sublist_append_left _ _), trivial⟩
      | some s' => exact ih (hr s' rfl) h'

theorem safe_countMessages (folders : List (String × String)) {c : Conn} {byUid : Bool}
    (h : Tally content byUid part w₀) :
    Safe (network content) ⟨Tally content byUid part, fun _ _ => True⟩
      (fun _ _ => True) (fun _ _ => True) (countMessages c folders) w₀ := by
  induction folders generalizing w₀ with
  | nil => exact ⟨h, trivial⟩
  | cons folder folders ih =>
      apply Safe.bind
      refine Safe.op h trivial ?_ fun e w hr => ⟨(Undisturbed.of_failing hr).tally h, trivial⟩
      intro reply w hr
      obtain ⟨-, hr⟩ := answering_eq hr
      obtain rfl := Option.some.inj hr
      have h₁ := (@Tried.select content w₀ byUid part folder.1 c h reply.1).tally
      refine ⟨h₁, ?_⟩
      apply Safe.bind
      exact (ih h₁).post (fun _ _ hc _ => ⟨hc, trivial⟩) fun _ _ _ _ => trivial

/-- At every moment the target has taken messages of the folders only, each at most once. -/
theorem safe_executeRestore (folders : List (String × String)) (hs : s.Sides)
    (h : w₀.stored = []) :
    Safe (network content)
      ⟨Tally content ctx.job.byUid (folders.flatMap (folderPart content ctx)), fun _ _ => True⟩
      (fun _ _ => True) (fun _ _ => True) (executeRestore ctx folders s) w₀ := by
  have hempty : Tally content ctx.job.byUid [] w₀ := by
    refine ⟨?_, ?_⟩
    · rw [h]
      exact List.Sublist.refl _
    · simp [h]
  apply Safe.bind
  refine (safe_countMessages folders hempty).mono (fun w h => h.mono (List.nil_sublist _))
    (fun _ _ _ => trivial) ?_ fun _ _ _ _ => trivial
  intro total w hw _
  apply Safe.bind
  exact (safe_restoreFolders ctx folders hs hw).post (fun _ _ hc _ => ⟨hc, trivial⟩)
    fun _ _ _ _ => trivial

end Loops

/-! ## Selections -/

def World.initial : World where
  next := 2

/-- In every run the target takes selected messages only, and each at most once. -/
def AppendsOnlySelected (content : String → Mailbox) (ctx : Context)
    (folders : List (String × String)) : Prop :=
  ∀ tr p w, Run (network content) (executeRestore ctx folders .initial) .initial tr p w →
    (w.stored.map fun m => (m.mailbox, m.id)).Nodup ∧
      ∀ m ∈ w.stored, ∃ row ∈ ctx.job.selectedUids.rows, m.mailbox = Staging.quoted row.1 ∧
        m.id ∈ row.2 ∧ (content m.mailbox).get? m.id = some m.raw

section Selected

variable {ctx : Context} (hsel : ctx.job.byUid = true)
include hsel

theorem resolveFolders_selected (ns : String) (listing : List String) :
    resolveFolders ctx.job ns listing = ctx.job.selectedUids.rows.map fun row => (row.1, row.1) :=
  if_pos hsel

theorem uidFilter_of_mem {row : String × List ℕ} (h : row ∈ ctx.job.selectedUids.rows) :
    uidFilter ctx row.1 = some row.2 := by
  rw [uidFilter, if_pos hsel]
  exact Table.mem_rows.mp h

theorem mem_folderPart {row : String × List ℕ} (h : row ∈ ctx.job.selectedUids.rows)
    {x : String × ℕ} (hx : x ∈ folderPart content ctx (row.1, row.1)) :
    x.1 = Staging.quoted row.1 ∧ x.2 ∈ (content (Staging.quoted row.1)).keys ∧ (row.2 = [] ∨ x.2 ∈ row.2) := by
  simp only [folderPart, chosen, uidFilter_of_mem hsel h, Mailbox.ids, hsel, if_true,
    List.mem_map, List.mem_filter] at hx
  obtain ⟨id, ⟨hid, hpass⟩, rfl⟩ := hx
  refine ⟨rfl, hid, ?_⟩
  simpa [passesOver, Classical.or_iff_not_imp_left] using hpass

theorem nodup_folderParts : ((ctx.job.selectedUids.rows.map fun row => (row.1, row.1)).flatMap
    (folderPart content ctx)).Nodup := by
  rw [List.flatMap_map, List.nodup_flatMap]
  refine ⟨fun row _ => ?_, ?_⟩
  · refine List.Nodup.map (fun a b h => (Prod.mk.inj h).2) ?_
    exact (Mailbox.nodup_ids _ _).filter _
  · have hkeys := List.pairwise_map.mp ctx.job.selectedUids.nodup
    refine hkeys.imp_of_mem ?_
    intro row row' hrow hrow' hne x hx hx'
    have h := mem_folderPart hsel hrow hx
    have h' := mem_folderPart hsel hrow' hx'
    exact hne (quoted_inj (h.1.symm.trans h'.1))

/-- Nothing else is appended if no key comes with an empty list but those of empty folders. -/
theorem appendsOnlySelected_of_nonempty
    (h : ∀ row ∈ ctx.job.selectedUids.rows, row.2 = [] → (content (Staging.quoted row.1)).rows = [])
    (ns : String) (listing : List String) :
    AppendsOnlySelected content ctx (resolveFolders ctx.job ns listing) := by
  intro tr p w hrun
  have hsides : Session.Sides .initial := ⟨rfl, rfl⟩
  have hstored : World.initial.stored = [] := rfl
  have htally := ((safe_executeRestore ctx (resolveFolders ctx.job ns listing) hsides hstored).run
    hrun).crash
  rw [resolveFolders_selected hsel] at htally
  refine ⟨htally.sublist.nodup (nodup_folderParts hsel), ?_⟩
  intro m hm
  have hmem := htally.sublist.subset (List.mem_map_of_mem hm)
  obtain ⟨folder, hfolder, hpart⟩ := List.mem_flatMap.mp hmem
  obtain ⟨row, hrow, rfl⟩ := List.mem_map.mp hfolder
  obtain ⟨hname, hid, huid⟩ := mem_folderPart hsel hrow hpart
  have hraw := htally.faithful m hm
  rw [hsel] at hraw
  refine ⟨row, hrow, hname, ?_, hraw⟩
  rcases huid with hnil | huid
  · simp [Table.keys, h row hrow hnil] at hid
  · exact huid

end Selected

/-! ## A folder with an empty list

Its filter is empty, hence false, and all its messages are handed over. -/

/-- Nothing is lost and nothing is stored yet. -/
structure Calm (w : World) : Prop where
  dead : w.dead = []
  stored : w.stored = []

section Run

variable (content) (ctx : Context) {s : Session} {w : World} (hcalm : Calm w)
include hcalm

theorem returns_select (c : Conn) (mailbox : String) (readonly : Bool) (reply : String × ℕ) :
    Returns (network content) (RestoreTask.select c mailbox readonly) w reply
      (w.choose c (if reply.1 = "OK" then some mailbox else none)) := by
  refine Returns.op ?_
  simp [network, answering, hcalm.dead]

theorem Calm.choose (c : Conn) (mailbox : Option String) : Calm (w.choose c mailbox) :=
  ⟨hcalm.dead, hcalm.stored⟩

theorem returns_countMessages (c : Conn) (folders : List (String × String)) :
    ∃ n w', Returns (network content) (countMessages c folders) w n w' ∧ Calm w' := by
  induction folders generalizing w with
  | nil => exact ⟨0, w, .ret, hcalm⟩
  | cons folder folders ih =>
      obtain ⟨n, w', hrest, hcalm'⟩ := ih (hcalm.choose c _)
      exact ⟨_, w', (returns_select content hcalm c _ true ("NO", 0)).bind (hrest.bind .ret), hcalm'⟩

theorem returns_ensureMailbox (c : Conn) (folder : String) :
    Returns (network content) (ensureMailbox c folder) w () (w.choose c none) := by
  have hselect := returns_select content hcalm c (Staging.quoted folder) false ("NO", 0)
  have hcreate : Returns (network content) (RestoreTask.create c (Staging.quoted folder)) (w.choose c none)
      () (w.choose c none) := by
    refine Returns.op ?_
    simp [network, answering, World.choose, hcalm.dead]
  have hselected : Returns (network content) ((do
      let reply ← RestoreTask.select c (Staging.quoted folder) false
      if reply.1 = "OK" then do
        RestoreTask.close c
        pure true
      else pure false : RestoreTask Bool).handle fun _ => pure false) w false (w.choose c none) := by
    refine Returns.handle ?_ _
    exact Returns.bind hselect .ret
  exact hselected.bind (hcreate.handle _)

/-- The target takes a message without an envelope. -/
theorem returns_deliverMessage (c : Conn) (target : String) (raw : Bytes) :
    Returns (network content) (deliverMessage ctx c target "" raw) w .restored
      ((w.choose c none).store (Staging.quoted target) raw) := by
  have hdate : Returns (network content) (dateOf ctx "") w none w := .ret
  have happend : Returns (network content) (RestoreTask.append c (Staging.quoted target) none none raw)
      (w.choose c none) "OK" ((w.choose c none).store (Staging.quoted target) raw) := by
    refine Returns.op ?_
    simp [network, answering, appending, World.choose, hcalm.dead]
  have hretry : Returns (network content)
      (retry (RestoreTask.append c (Staging.quoted target) none none raw) 2) (w.choose c none) "OK"
      ((w.choose c none).store (Staging.quoted target) raw) := happend.handle _
  have hresult : Returns (network content) ((do
      let result ← retry (RestoreTask.append c (Staging.quoted target) none none raw) 2
      pure (if result = "OK" then Outcome.restored else .failed) : RestoreTask Outcome).handle
        fun e => if e.isImap = true ∨ e.isLost = true then pure .failed else Prog.raise e)
      (w.choose c none) .restored ((w.choose c none).store (Staging.quoted target) raw) := by
    refine Returns.handle ?_ _
    exact Returns.bind hretry .ret
  exact Returns.bind hdate (Returns.bind (returns_ensureMailbox content hcalm c target) hresult)

theorem returns_restoreMessage (full target : String) {uid : ℕ} {raw : Bytes}
    (hselected : w.selected s.src = some (Staging.quoted full))
    (hmessage : (content (Staging.quoted full)).message? ctx.job.byUid uid = some raw) :
    ∃ w', Returns (network content) (restoreMessage ctx full target [] uid s) w s w' ∧
      w'.stored = [⟨Staging.quoted full, uid, Staging.quoted target, raw⟩] := by
  obtain ⟨w₁, hw₁⟩ : ∃ w₁, w₁ = { w with fetched := (Staging.quoted full, uid) } := ⟨_, rfl⟩
  have hcalm₁ : Calm w₁ := hw₁ ▸ ⟨hcalm.dead, hcalm.stored⟩
  have hfetch : Returns (network content) (RestoreTask.fetch s.src ctx.job.byUid uid) w
      ("OK", some ("", raw)) w₁ := by
    refine Returns.op ?_
    simp [network, answering, fetching, hcalm.dead, hselected, hmessage, hw₁]
  have hduplicate : ¬ (ctx.job.skipDuplicates = true ∧ duplicate ctx raw [] = true) := by
    simp [duplicate]
  have hdeliver := returns_deliverMessage content ctx hcalm₁ s.tgt target raw
  have hsingle : Returns (network content)
      (restoreSingleMessage ctx s.src s.tgt uid target []) w .restored
      ((w₁.choose s.tgt none).store (Staging.quoted target) raw) := by
    refine hfetch.bind ?_
    simp only [ne_eq, not_true_eq_false, if_false, if_neg hduplicate]
    exact hdeliver
  have hattempt : Returns (network content)
      (RestoreTask.attempt (restoreSingleMessage ctx s.src s.tgt uid target [])) w (.ok .restored)
      ((w₁.choose s.tgt none).store (Staging.quoted target) raw) := by
    refine Returns.handle ?_ _
    exact Returns.bind hsingle .ret
  have hrecord : ∀ w', Returns (network content) (RestoreTask.record .restored) w' ()
      { w' with recorded := w'.recorded ++ [.restored] } := fun w' => .op rfl
  refine ⟨_, Returns.bind hattempt (Returns.bind (hrecord _) .ret), ?_⟩
  simp [World.store, World.choose, hw₁, hcalm.stored]

theorem run_restoreFolder (hs : s.Sides) {key : String} {uid : ℕ} {raw : Bytes}
    {rows : List (ℕ × Bytes)} (hbyUid : ctx.job.byUid = true)
    (hfilter : uidFilter ctx key = some [])
    (hcontent : (content (Staging.quoted key)).rows = (uid, raw) :: rows) :
    ∃ w', w'.stored = [⟨Staging.quoted key, uid, Staging.quoted (targetMailbox ctx key), raw⟩] ∧
      ∃ p tr, Run (network content) (restoreFolder ctx (key, key) s) w tr p w' := by
  have hids : (content (Staging.quoted key)).ids ctx.job.byUid = uid :: rows.map Prod.fst := by
    simp [Mailbox.ids, hbyUid, Table.keys, hcontent]
  have hmessage : (content (Staging.quoted key)).message? ctx.job.byUid uid = some raw := by
    simp [Mailbox.message?, hbyUid, Table.get?, hcontent]
  have hselect := returns_select content hcalm s.src (Staging.quoted key) true ("OK", 0)
  have hcalm₁ := hcalm.choose s.src (some (Staging.quoted key))
  have hsearch : Returns (network content) (RestoreTask.search s.src ctx.job.byUid)
      (w.choose s.src (some (Staging.quoted key))) ("OK", uid :: rows.map Prod.fst)
      (w.choose s.src (some (Staging.quoted key))) := by
    refine Returns.op ?_
    simp [network, answering, searching, World.choose, hcalm.dead, hs.src, hids]
  obtain ⟨w₂, hexisting, hcalm₂, hselected⟩ : ∃ w₂, Returns (network content)
      (existingIds ctx s.tgt key) (w.choose s.src (some (Staging.quoted key))) [] w₂ ∧ Calm w₂ ∧
        w₂.selected s.src = some (Staging.quoted key) := by
    unfold existingIds
    split
    · have hrefused := returns_select content hcalm₁ s.tgt (Staging.quoted (targetMailbox ctx key)) true
        ("NO", 0)
      have hattempt : Returns (network content) (RestoreTask.attempt (RestoreTask.select s.tgt
          (Staging.quoted (targetMailbox ctx key)) true)) (w.choose s.src (some (Staging.quoted key)))
          (.ok ("NO", 0)) ((w.choose s.src (some (Staging.quoted key))).choose s.tgt none) := by
        refine Returns.handle ?_ _
        exact Returns.bind hrefused .ret
      have hne : s.src ≠ s.tgt := by
        intro h
        have hside := hs.tgt
        rw [← h, hs.src] at hside
        cases hside
      refine ⟨_, Returns.bind hattempt .ret, hcalm₁.choose s.tgt none, ?_⟩
      simp [World.choose, Function.update_of_ne hne]
    · exact ⟨_, .ret, hcalm₁, by simp [World.choose]⟩
  obtain ⟨w₃, hmessage, hstored⟩ := returns_restoreMessage content ctx hcalm₂ key
    (targetMailbox ctx key) hselected hmessage
  have hcancelled : Returns (network content) RestoreTask.cancelled w₂ false w₂ := .op rfl
  refine ⟨w₃, hstored,
    restoreMessages ctx key (targetMailbox ctx key) [] (some []) (rows.map Prod.fst) s,
    Returns.run_bind hselect (Returns.run_bind hsearch (Returns.run_bind hexisting ?_))⟩
  dsimp only
  rw [hfilter]
  exact Returns.run_bind hcancelled (Returns.run_bind hmessage ⟨[], .refl _ w₃⟩)

theorem run_restoreFolders (hs : s.Sides) (before after : List (String × String)) {key : String}
    {uid : ℕ} {raw : Bytes} {rows : List (ℕ × Bytes)} (hbyUid : ctx.job.byUid = true)
    (hfilter : uidFilter ctx key = some [])
    (hcontent : (content (Staging.quoted key)).rows = (uid, raw) :: rows) :
    ∃ w', w'.stored = [⟨Staging.quoted key, uid, Staging.quoted (targetMailbox ctx key), raw⟩] ∧ ∃ p tr,
      Run (network content) (restoreFolders ctx (before ++ (key, key) :: after) s) w tr p w' := by
  have hcancelled : ∀ w, Returns (network content) RestoreTask.cancelled w false w :=
    fun w => .op rfl
  induction before generalizing w with
  | nil =>
      obtain ⟨w', hstored, p, hrun⟩ := run_restoreFolder content ctx hcalm hs hbyUid hfilter hcontent
      obtain ⟨tr, hrun⟩ := hrun
      exact ⟨w', hstored, _, Returns.run_bind (hcancelled w) ⟨tr, hrun.bind _⟩⟩
  | cons folder before ih =>
      have hselect := returns_select content hcalm s.src (Staging.quoted folder.1) true ("NO", 0)
      obtain ⟨w', hstored, p, hrun⟩ := ih (hcalm.choose s.src none)
      have hfolder : Returns (network content) (restoreFolder ctx folder s) w (some s)
          (w.choose s.src none) := hselect.bind .ret
      exact ⟨w', hstored, p, Returns.run_bind (hcancelled w) (Returns.run_bind hfolder hrun)⟩

end Run

/-- An empty list under a folder with messages hands over its first message. -/
theorem nonempty_of_appendsOnlySelected {content : String → Mailbox} {ctx : Context}
    (hsel : ctx.job.byUid = true) (ns : String) (listing : List String)
    (h : AppendsOnlySelected content ctx (resolveFolders ctx.job ns listing)) :
    ∀ row ∈ ctx.job.selectedUids.rows, row.2 = [] → (content (Staging.quoted row.1)).rows = [] := by
  intro row hrow hnil
  cases hcontent : (content (Staging.quoted row.1)).rows with
  | nil => rfl
  | cons message rows =>
      obtain ⟨uid, raw⟩ := message
      have hfilter := uidFilter_of_mem hsel hrow
      rw [hnil] at hfilter
      obtain ⟨before, after, hrows⟩ := List.append_of_mem hrow
      have hresolve : resolveFolders ctx.job ns listing =
          before.map (fun row => (row.1, row.1)) ++ (row.1, row.1) ::
            after.map fun row => (row.1, row.1) := by
        rw [resolveFolders_selected hsel, hrows, List.map_append, List.map_cons]
      have hinitial : Calm .initial := ⟨rfl, rfl⟩
      have hsides : Session.initial.Sides := ⟨rfl, rfl⟩
      obtain ⟨n, w, hcount, hcalm⟩ := returns_countMessages content hinitial
        Session.initial.src (resolveFolders ctx.job ns listing)
      obtain ⟨w', hstored, p, tr, hrun⟩ := run_restoreFolders content ctx hcalm hsides
        (before.map fun row => (row.1, row.1)) (after.map fun row => (row.1, row.1)) hsel hfilter
        hcontent
      rw [← hresolve] at hrun
      obtain ⟨tr', hrun'⟩ : ∃ tr', Run (network content)
          (executeRestore ctx (resolveFolders ctx.job ns listing) .initial) .initial tr'
          (p.bind fun s => Prog.ret (totalMessages ctx.job n, s)) w' :=
        Returns.run_bind hcount ⟨tr, hrun.bind _⟩
      have hmem := (h tr' _ w' hrun').2
      rw [hstored, List.forall_mem_singleton] at hmem
      obtain ⟨row', hrow', hname, huid, -⟩ := hmem
      have hkey : row'.1 = row.1 := quoted_inj hname.symm
      have heq := Table.mem_rows.mp (show (row'.1, row'.2) ∈ _ from hrow')
      rw [hkey, Table.mem_rows.mp (show (row.1, row.2) ∈ _ from hrow)] at heq
      rw [← Option.some.inj heq, hnil] at huid
      cases huid

/-- A selection restore appends selected messages only exactly if no key of a folder with messages
comes with an empty list. -/
theorem appendsOnlySelected_iff {content : String → Mailbox} {ctx : Context}
    (hsel : ctx.job.byUid = true) (ns : String) (listing : List String) :
    AppendsOnlySelected content ctx (resolveFolders ctx.job ns listing) ↔
      ∀ row ∈ ctx.job.selectedUids.rows, row.2 = [] → (content (Staging.quoted row.1)).rows = [] :=
  ⟨nonempty_of_appendsOnlySelected hsel ns listing,
    fun h => appendsOnlySelected_of_nonempty hsel h ns listing⟩

/-- A restore of the messages under some keys. -/
def selecting (selectedUids : Table String (List ℕ)) : Context where
  job := { selectedUids := selectedUids }
  messageId := fun _ => none
  internalDate := some

/-- Every mailbox holds two messages. -/
def twoMessages (_ : String) : Mailbox := ⟨[(3, [65]), (7, [66])], by decide⟩

theorem not_appendsOnlySelected : ¬ AppendsOnlySelected twoMessages
    (selecting ⟨[("INBOX", [3]), ("Sent", [])], by decide⟩)
    (resolveFolders (selecting ⟨[("INBOX", [3]), ("Sent", [])], by decide⟩).job "" []) := fun h =>
  absurd (nonempty_of_appendsOnlySelected rfl "" [] h ("Sent", []) (by decide) rfl) (by decide)

theorem appendsOnlySelected_inbox : AppendsOnlySelected twoMessages
    (selecting ⟨[("INBOX", [3])], by decide⟩)
    (resolveFolders (selecting ⟨[("INBOX", [3])], by decide⟩).job "" []) :=
  (appendsOnlySelected_iff rfl "" []).mpr (by
    intro row hrow hnil
    rw [List.mem_singleton.mp hrow] at hnil
    cases hnil)

end MailFallback.Restore
