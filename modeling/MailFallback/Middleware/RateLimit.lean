import MailFallback.Library.Regex
import MailFallback.Library.SlidingWindow
import Mathlib.Algebra.Order.Ring.Rat
import Mathlib.Tactic.Linarith

/-! # The rate limit

`RateLimitMiddleware` refuses POST requests of an address that come too fast. The counters are
lists of moments under a text made of the address and the path. -/

namespace MailFallback.Middleware

open SlidingWindow

/-- An address as the server hands it over: no slash occurs in it. -/
structure Client where
  host : String
  noSlash : '/' ∉ host.toList
  deriving DecidableEq

structure Request where
  method : String
  path : String
  client : Option Client
  /-- The reading of the monotonic clock. -/
  time : ℚ
  deriving DecidableEq

/-- How many requests, and within how many seconds. -/
abbrev Config := ℕ × ℚ

def rateLimitedPaths : List (String × Config) :=
  [("/api/auth/login", 10, 60), ("/login", 10, 60), ("/profile/password", 5, 60),
    ("/profile/tokens", 5, 60), ("/api/sync/all", 3, 60), ("/api/accounts", 5, 60),
    ("/api/restore", 3, 60)]

def rateLimitedPrefixes : List (String × Config) := [("/api/sync/", 5, 60)]

/-- The limit of a path, its own or that of a prefix. -/
def configOf (path : String) : Option Config :=
  (rateLimitedPaths.lookup path).or
    ((rateLimitedPrefixes.find? fun row => PyString.startsWith path row.1).map Prod.snd)

def Request.clientIp (r : Request) : String := (r.client.map Client.host).getD "unknown"

def Request.counterKey (r : Request) : String := r.clientIp ++ ":" ++ r.path

abbrev Counters := String → List ℚ

structure JsonResponse where
  status : ℕ
  detail : String
  deriving DecidableEq, Repr

def tooMany : JsonResponse := ⟨429, "Too many requests, please try again later"⟩

/-- The counters afterwards, and the refusal; nothing for a request that is passed on. -/
def dispatch (counters : Counters) (r : Request) : Counters × Option JsonResponse :=
  if r.method = "POST" then
    match configOf r.path with
    | none => (counters, none)
    | some (maxRequests, window) =>
        let recent := (counters r.counterKey).filter fun t => r.time - t < window
        if maxRequests ≤ recent.length then
          (Function.update counters r.counterKey recent, some tooMany)
        else (Function.update counters r.counterKey (recent ++ [r.time]), none)
  else (counters, none)

/-- The requests in the order of their decisions, each with its answer. -/
def dispatchAll (counters : Counters) : List Request → List (Request × Option JsonResponse)
  | [] => []
  | r :: rs => (r, (dispatch counters r).2) :: dispatchAll (dispatch counters r).1 rs

/-- From the start of the process. -/
def serve (requests : List Request) : List (Request × Option JsonResponse) :=
  dispatchAll (fun _ => []) requests

/-! ## Keys -/

/-- What a request is counted under. -/
def Request.key (r : Request) : String × String × String := (r.method, r.clientIp, r.path)

theorem not_slash_clientIp (r : Request) : '/' ∉ r.clientIp.toList := by
  unfold Request.clientIp
  cases r.client with
  | none => decide
  | some client => exact client.noSlash

theorem slash_of_config {path : String} {config : Config} (h : configOf path = some config) :
    path.toList.head? = some '/' := by
  rw [configOf, Option.or_eq_some_iff] at h
  rcases h with h | ⟨-, h⟩
  · have hall : rateLimitedPaths.all (fun row => row.1.toList.head? == some '/') = true := by decide
    obtain ⟨l, l', hsplit, -⟩ := List.lookup_eq_some_iff.mp h
    have hmem : (path, config) ∈ rateLimitedPaths := by
      rw [hsplit]
      exact List.mem_append_right l List.mem_cons_self
    exact beq_iff_eq.mp (List.all_eq_true.mp hall _ hmem)
  · obtain ⟨row, hrow, -⟩ := Option.map_eq_some_iff.mp h
    have hpre := List.find?_some hrow
    rw [List.mem_singleton.mp (List.mem_of_find?_eq_some hrow), PyString.startsWith,
      List.isPrefixOf_iff_prefix] at hpre
    obtain ⟨rest, hrest⟩ := hpre
    rw [← hrest]
    rfl

/-- The text of a limited request tells its address and its path. -/
theorem key_of_counterKey {r r' : Request} {config config' : Config}
    (h : configOf r.path = some config) (h' : configOf r'.path = some config')
    (hkey : r.counterKey = r'.counterKey) : r.clientIp = r'.clientIp ∧ r.path = r'.path := by
  have hslash := slash_of_config h
  have hslash' := slash_of_config h'
  obtain ⟨rest, hrest⟩ := List.head?_eq_some_iff.mp hslash
  obtain ⟨rest', hrest'⟩ := List.head?_eq_some_iff.mp hslash'
  have hno : ∀ r : Request, ∀ c ∈ r.clientIp.toList ++ [':'], (c != '/') = true := by
    intro r c hc
    rw [bne_iff_ne]
    rintro rfl
    rcases List.mem_append.mp hc with hc | hc
    · exact not_slash_clientIp r hc
    · exact absurd (List.mem_singleton.mp hc) (by decide)
  have htext : r.clientIp.toList ++ [':'] ++ '/' :: rest =
      r'.clientIp.toList ++ [':'] ++ '/' :: rest' := by
    have hlists := congrArg String.toList hkey
    simp only [Request.counterKey, String.toList_append, hrest, hrest'] at hlists
    exact hlists
  obtain ⟨hhost, -, htail⟩ := Regex.taken_unique (hno r) (by decide) (hno r') (by decide) htext
  refine ⟨String.toList_inj.mp (List.append_cancel_right hhost), String.toList_inj.mp ?_⟩
  rw [hrest, hrest', htail]

/-! ## The limiter it is -/

/-- Requests of one address and path compete. -/
def limiter : Limiter Request (String × String × String) ℚ where
  key := Request.key
  time := Request.time
  limit k := if k.1 = "POST" then (configOf k.2.2).map Prod.fst else none
  window k := ((configOf k.2.2).map Prod.snd).getD 0

def answerOf (e : Request × Bool) : Request × Option JsonResponse :=
  (e.1, if e.2 = true then none else some tooMany)

/-- The counters hold what can still count from `now` on. -/
def Agrees (counters : Counters) (log : Log Request) (now : ℚ) : Prop :=
  ∀ r : Request, r.method = "POST" → ∀ n window, configOf r.path = some (n, window) →
    ∀ later, now ≤ later → (counters r.counterKey).countP (fun t => decide (later - t < window)) =
      accepted limiter log r.key fun t => later - t < window

theorem admits_of_unlimited {log : Log Request} {r : Request}
    (h : limiter.limit r.key = none) : admits limiter log r = true := by
  rw [admits, show limiter.key r = r.key from rfl, h]
  rfl

/-- A decision of the middleware is that of the limiter. -/
theorem dispatch_spec {counters : Counters} {log : Log Request} {now : ℚ} {r : Request}
    (h : Agrees counters log now) (hnow : now ≤ r.time) :
    (r, (dispatch counters r).2) = answerOf (r, admits limiter log r) ∧
      Agrees (dispatch counters r).1 (log ++ [(r, admits limiter log r)]) r.time := by
  have hother : ∀ r' : Request, ∀ I : ℚ → Prop, ∀ _ : DecidablePred I, r'.key ≠ r.key →
      accepted limiter (log ++ [(r, admits limiter log r)]) r'.key I =
        accepted limiter log r'.key I := by
    intro r' I _ hne
    rw [accepted_append, Nat.add_eq_left, accepted, List.countP_eq_zero]
    rintro e he
    rw [List.mem_singleton.mp he, Bool.and_eq_true, decide_eq_true_eq]
    exact fun hkey => hne hkey.2.1.symm
  by_cases hpost : r.method = "POST"
  swap
  · -- another method: nothing is counted
    rw [dispatch, if_neg hpost, admits_of_unlimited (if_neg hpost)]
    refine ⟨rfl, fun r' hpost' n window hconfig later hlater => ?_⟩
    have hne : r'.key ≠ r.key := fun hkey =>
      hpost ((congrArg Prod.fst hkey).symm.trans hpost')
    rw [h r' hpost' n window hconfig later (hnow.trans hlater)]
    have hsame := hother r' (fun t => later - t < window) inferInstance hne
    rw [admits_of_unlimited (if_neg hpost)] at hsame
    exact hsame.symm
  cases hconfig : configOf r.path with
  | none =>
      have hunlimited : limiter.limit r.key = none := by
        rw [show limiter.limit r.key = _ from if_pos hpost, show r.key.2.2 = r.path from rfl,
          hconfig]
        rfl
      rw [dispatch, if_pos hpost, hconfig, admits_of_unlimited hunlimited]
      refine ⟨rfl, fun r' hpost' n window hconfig' later hlater => ?_⟩
      have hne : r'.key ≠ r.key := by
        intro hkey
        rw [show r'.path = r.path from congrArg (fun k => k.2.2) hkey, hconfig] at hconfig'
        cases hconfig'
      rw [h r' hpost' n window hconfig' later (hnow.trans hlater)]
      have hsame := hother r' (fun t => later - t < window) inferInstance hne
      rw [admits_of_unlimited hunlimited] at hsame
      exact hsame.symm
  | some config =>
      obtain ⟨maxRequests, window⟩ := config
      have hlimit : limiter.limit r.key = some maxRequests := by
        rw [show limiter.limit r.key = _ from if_pos hpost, show r.key.2.2 = r.path from rfl,
          hconfig]
        rfl
      have hwindow : limiter.window r.key = window := by
        rw [show limiter.window r.key = ((configOf r.path).map Prod.snd).getD 0 from rfl, hconfig]
        rfl
      -- it is enough to look at the counter that changes
      have hupdate : ∀ recent, (∀ later, r.time ≤ later →
          recent.countP (fun t => decide (later - t < window)) =
            accepted limiter (log ++ [(r, admits limiter log r)]) r.key
              fun t => later - t < window) →
          Agrees (Function.update counters r.counterKey recent)
            (log ++ [(r, admits limiter log r)]) r.time := by
        intro recent hrecent r' hpost' n' window' hconfig' later hlater
        by_cases hkey : r'.counterKey = r.counterKey
        · obtain ⟨hclient, hpath⟩ := key_of_counterKey hconfig' hconfig hkey
          rw [hpath, hconfig, Option.some_inj, Prod.mk.injEq] at hconfig'
          obtain ⟨-, rfl⟩ := hconfig'
          have hsame : r'.key = r.key := by
            rw [Request.key, Request.key, hpost, hpost', hclient, hpath]
          rw [hkey, Function.update_self, hrecent later hlater, hsame]
        · have hne : r'.key ≠ r.key := by
            intro hsame
            simp only [Request.key, Prod.mk.injEq] at hsame
            exact hkey (by rw [Request.counterKey, Request.counterKey, hsame.2.1, hsame.2.2])
          rw [Function.update_of_ne hkey, h r' hpost' n' window' hconfig' later (hnow.trans hlater),
            hother r' _ _ hne]
      have hpruned : ∀ later, r.time ≤ later →
          ((counters r.counterKey).filter fun t => decide (r.time - t < window)).countP
            (fun t => decide (later - t < window)) =
              accepted limiter log r.key fun t => later - t < window := by
        intro later hlater
        rw [← h r hpost _ _ hconfig later (hnow.trans hlater), List.countP_filter]
        refine List.countP_congr fun t _ => ?_
        rw [Bool.and_eq_true, decide_eq_true_eq, decide_eq_true_eq, and_iff_left_iff_imp]
        exact lt_of_le_of_lt (sub_le_sub_right hlater t)
      have hlength : ((counters r.counterKey).filter fun t => decide (r.time - t < window)).length =
          accepted limiter log r.key fun t => r.time - t < window := by
        rw [← h r hpost _ _ hconfig r.time hnow, List.countP_eq_length_filter]
      have hadmits : admits limiter log r = decide
          (accepted limiter log r.key (fun t => r.time - t < window) < maxRequests) := by
        simp only [admits, show limiter.key r = r.key from rfl, hlimit, hwindow, Option.all_some]
        rfl
      rw [dispatch, if_pos hpost, hconfig]
      dsimp only
      rw [hlength]
      split
      · rename_i hfull
        have hrefused : admits limiter log r = false := by
          rw [hadmits, decide_eq_false_iff_not, not_lt]
          exact hfull
        refine ⟨by rw [hrefused]; rfl, hupdate _ fun later hlater => ?_⟩
        rw [hpruned later hlater, accepted_append, hrefused, accepted_refused, Nat.add_zero]
      · rename_i hfull
        have hadmitted : admits limiter log r = true := by
          rw [hadmits, decide_eq_true_eq]
          exact not_le.mp hfull
        refine ⟨by rw [hadmitted]; rfl, hupdate _ fun later hlater => ?_⟩
        rw [List.countP_append, hpruned later hlater, accepted_append, hadmitted]
        congr 1
        rw [accepted, List.countP_singleton, List.countP_singleton]
        simp [limiter]

theorem dispatchAll_eq {counters : Counters} {log : Log Request} {now : ℚ} {rs : List Request}
    (h : Agrees counters log now) (hnow : ∀ r ∈ rs, now ≤ r.time)
    (hmono : rs.Pairwise fun r r' => r.time ≤ r'.time) :
    dispatchAll counters rs = (outcomes limiter log rs).map answerOf := by
  induction rs generalizing counters log now with
  | nil => rfl
  | cons r rs ih =>
      obtain ⟨hhead, htail⟩ := List.pairwise_cons.mp hmono
      obtain ⟨hanswer, hagrees⟩ := dispatch_spec h (hnow r List.mem_cons_self)
      rw [dispatchAll, outcomes, List.map_cons, hanswer, ih hagrees hhead htail]

theorem serve_eq {requests : List Request}
    (hmono : requests.Pairwise fun r r' => r.time ≤ r'.time) :
    serve requests = (outcomes limiter [] requests).map answerOf := by
  cases requests with
  | nil => rfl
  | cons r rs =>
      have hagrees : Agrees (fun _ => []) [] r.time := fun _ _ _ _ _ _ _ => rfl
      refine dispatchAll_eq hagrees (fun r' hr' => ?_) hmono
      rcases List.mem_cons.mp hr' with rfl | hr'
      · exact le_rfl
      · exact (List.pairwise_cons.mp hmono).1 r' hr'

/-- How many POST requests of the address to the path were passed on at such times. -/
def passed (log : List (Request × Option JsonResponse)) (address path : String) (I : ℚ → Prop)
    [DecidablePred I] : ℕ :=
  log.countP fun e => e.2.isNone && decide
    (e.1.method = "POST" ∧ e.1.clientIp = address ∧ e.1.path = path ∧ I e.1.time)

theorem passed_map (log : Log Request) (address path : String) (I : ℚ → Prop) [DecidablePred I] :
    passed (log.map answerOf) address path I =
      accepted limiter log ("POST", address, path) I := by
  rw [passed, accepted, List.countP_map]
  refine List.countP_congr fun e _ => ?_
  obtain ⟨r, ok⟩ := e
  cases ok <;> simp [answerOf, limiter, Request.key, and_assoc]

/-- A refusal stands at the same place in the log of the limiter. -/
theorem refused_of_map {log : Log Request} {before after : List (Request × Option JsonResponse)}
    {r : Request} {response : JsonResponse}
    (h : log.map answerOf = before ++ (r, some response) :: after) :
    ∃ before' after', log = before' ++ (r, false) :: after' ∧ before = before'.map answerOf ∧
      after = after'.map answerOf := by
  obtain ⟨before', rest, rfl, rfl, hrest⟩ := List.map_eq_append_iff.mp h
  obtain ⟨⟨r', ok⟩, after', rfl, hrefused, rfl⟩ := List.map_eq_cons_iff.mp hrest
  cases ok with
  | true => cases hrefused
  | false =>
      obtain rfl : r' = r := congrArg Prod.fst hrefused
      exact ⟨before', after', rfl, rfl, rfl⟩

theorem map_answerOf_fst (log : Log Request) : (log.map answerOf).map Prod.fst = log.map Prod.fst := by
  rw [List.map_map]
  rfl

section Exact

variable {requests : List Request} {address path : String} {n : ℕ} {window : ℚ}

theorem passed_le (hmono : requests.Pairwise fun r r' => r.time ≤ r'.time)
    (hconfig : configOf path = some (n, window)) (s : ℚ) :
    passed (serve requests) address path (fun t => s ≤ t ∧ t < s + window) ≤ n := by
  have hlimit : limiter.limit ("POST", address, path) = some n := by
    simp only [limiter, hconfig, reduceIte, Option.map_some]
  have hwindow : limiter.window ("POST", address, path) = window := by
    simp only [limiter, hconfig, Option.map_some, Option.getD_some]
  rw [serve_eq hmono, passed_map, ← List.nil_append (outcomes limiter [] requests)]
  refine accepted_le hlimit (fun t t' ht ht' => ?_) (Nat.zero_le n)
  rw [hwindow]
  linarith [ht.2, ht'.1]

theorem passed_of_refused (hmono : requests.Pairwise fun r r' => r.time ≤ r'.time)
    (hconfig : configOf path = some (n, window))
    {before after : List (Request × Option JsonResponse)} {r : Request} {response : JsonResponse}
    (h : serve requests = before ++ (r, some response) :: after) (haddress : r.clientIp = address)
    (hpath : r.path = path) :
    passed before address path (fun t => r.time - window < t ∧ t ≤ r.time) = n := by
  rw [serve_eq hmono] at h
  obtain ⟨before', after', hlog, rfl, -⟩ := refused_of_map h
  have hpost : r.method = "POST" := by
    by_contra hpost
    obtain ⟨as, bs, -, -, hrefused, -⟩ := outcomes_split hlog
    rw [admits_of_unlimited (if_neg hpost)] at hrefused
    cases hrefused
  have hkey : limiter.key r = ("POST", address, path) := by
    rw [← hpost, ← haddress, ← hpath]
    rfl
  have hlimit : limiter.limit (limiter.key r) = some n := by
    rw [hkey]
    simp only [limiter, hconfig, reduceIte, Option.map_some]
  have hwindow : limiter.window (limiter.key r) = window := by
    rw [hkey]
    simp only [limiter, hconfig, Option.map_some, Option.getD_some]
  have hfull := accepted_of_refused hlimit hmono hlog
  rw [hwindow, hkey] at hfull
  rw [passed_map]
  exact hfull

theorem serve_without (hmono : requests.Pairwise fun r r' => r.time ≤ r'.time)
    {before after : List (Request × Option JsonResponse)} {r : Request} {response : JsonResponse}
    (h : serve requests = before ++ (r, some response) :: after) :
    serve ((before ++ after).map Prod.fst) = before ++ after := by
  rw [serve_eq hmono] at h
  obtain ⟨before', after', hlog, rfl, rfl⟩ := refused_of_map h
  have hrequests : requests = (before' ++ (r, false) :: after').map Prod.fst := by
    rw [← hlog, map_outcomes]
  have hsublist : ((before' ++ after').map Prod.fst).Sublist requests := by
    rw [hrequests]
    exact ((List.Sublist.refl before').append (List.sublist_cons_self _ _)).map _
  rw [← List.map_append, map_answerOf_fst, serve_eq (hmono.sublist hsublist),
    outcomes_without hlog]

theorem serve_filter (hmono : requests.Pairwise fun r r' => r.time ≤ r'.time)
    (S : String × String × String → Prop) [DecidablePred S] :
    serve (requests.filter fun r => decide (S r.key)) =
      (serve requests).filter fun e => decide (S e.1.key) := by
  rw [serve_eq hmono, serve_eq (hmono.sublist List.filter_sublist), List.filter_map]
  have hfilter := @outcomes_filter _ _ _ _ limiter requests _ _ S _ []
  rw [List.filter_nil] at hfilter
  exact congrArg (List.map answerOf) hfilter.symm

end Exact

end MailFallback.Middleware
