import MailFallback.Library.Program

/-! # Programs with some exceptions only -/

namespace Effects

variable {Op : Type} {Ans : Op → Type} {ε α β σ : Type} {M : Machine Op Ans ε σ} {K : ε → Prop}

/-- The exception that has come out of the program. -/
def Prog.raised : Prog Op Ans ε α → Option ε
  | .raise e => some e
  | _ => none

theorem Prog.raised_eq_some {p : Prog Op Ans ε α} {e : ε} (h : p.raised = some e) : p = .raise e := by
  cases p with
  | ret a => cases h
  | raise e' => exact congrArg _ (Option.some.inj h)
  | perform o k => cases h

/-- However the program is started, an exception that comes out of it is one of `K`. -/
def Prog.Throws (M : Machine Op Ans ε σ) (K : ε → Prop) (p : Prog Op Ans ε α) : Prop :=
  ∀ s, Safe M .free (fun _ _ => True) (fun e _ => K e) p s

namespace Prog.Throws

theorem ret (a : α) : Throws M K (.ret a) := fun _ => ⟨trivial, trivial⟩

theorem raise {e : ε} (he : K e) : Throws M K (.raise e : Prog Op Ans ε α) := fun _ => ⟨trivial, he⟩

theorem op {o : Op} (ho : ∀ e s s', M o s (.error e) = some s' → K e) :
    Throws M K (Prog.op o : Prog Op Ans ε (Ans o)) := fun s =>
  Safe.op trivial trivial (fun _ _ _ => ⟨trivial, trivial⟩) fun e s' h => ⟨trivial, ho e s s' h⟩

theorem bind {p : Prog Op Ans ε α} {f : α → Prog Op Ans ε β} (hp : Throws M K p)
    (hf : ∀ a, Throws M K (f a)) : Throws M K (p.bind f) := fun s =>
  Safe.bind ((hp s).post (fun a s' _ _ => hf a s') fun _ _ _ he => he)

theorem handle {p : Prog Op Ans ε α} {f : ε → Prog Op Ans ε α} (hp : Throws M K p)
    (hf : ∀ e, K e → Throws M K (f e)) : Throws M K (p.handle f) := fun s =>
  Safe.handle ((hp s).post (fun _ _ _ _ => trivial) fun e s' _ he => hf e he s')

theorem foldlM {f : β → α → Prog Op Ans ε β} (hf : ∀ b a, Throws M K (f b a)) (l : List α) (b : β) :
    Throws M K (l.foldlM f b) := by
  induction l generalizing b with
  | nil => exact ret b
  | cons a l ih =>
      rw [List.foldlM_cons]
      exact bind (hf b a) ih

theorem forM {f : α → Prog Op Ans ε Unit} (hf : ∀ a, Throws M K (f a)) (l : List α) :
    Throws M K (l.forM f) := by
  induction l with
  | nil => exact ret ()
  | cons a l ih =>
      change Throws M K ((f a).bind fun _ => l.forM f)
      exact bind (hf a) fun _ => ih

/-- What is known of the exceptions is known of them in every run. -/
theorem and {p : Prog Op Ans ε α} {C : Contract Op σ} {Q : α → σ → Prop} {E : ε → σ → Prop} {s : σ}
    (hp : Throws M K p) (h : Safe M C Q E p s) : Safe M C Q (fun e s => E e s ∧ K e) p s :=
  (h.and (hp s)).mono (fun _ hc => hc.1) (fun _ _ ha => ha.1) (fun _ _ _ hq => hq.1)
    fun _ _ _ he => he

end Prog.Throws

end Effects
