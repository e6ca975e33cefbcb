import Mathlib.Data.List.Forall2
import Mathlib.Order.Defs.Unbundled
import Mathlib.Tactic.Common
namespace PluginBridge
variable {ε σ α β : Type}

theorem bind_done {x : EStateM ε σ α} {f : α → EStateM ε σ β} {s t : σ} {a : α}
    (ran : x s = .ok a t) : (x >>= f) s = f a t := by
  simp [bind, EStateM.bind, ran]

theorem bind_failed {x : EStateM ε σ α} {f : α → EStateM ε σ β} {s t : σ} {e : ε}
    (ran : x s = .error e t) : (x >>= f) s = .error e t := by
  simp [bind, EStateM.bind, ran]

theorem bind_parts {x : EStateM ε σ α} {f : α → EStateM ε σ β} {s u : σ} {b : β}
    (ran : (x >>= f) s = .ok b u) : ∃ a t, x s = .ok a t ∧ f a t = .ok b u := by
  cases first : x s with
  | ok a t => exact ⟨a, t, rfl, by rwa [bind_done first] at ran⟩
  | error e t => rw [bind_failed first] at ran; cases ran

def left : EStateM.Result ε σ α → σ
  | .ok _ s | .error _ s => s

def answered : EStateM.Result ε σ α → Except ε α
  | .ok a _ => .ok a
  | .error e _ => .error e

theorem answered_done {outcome : EStateM.Result ε σ α} {a : α} (done : answered outcome = .ok a) :
    outcome = .ok a (left outcome) := by
  cases outcome with
  | ok b s =>
    cases done
    rfl
  | error e s => cases done

theorem answered_failed {outcome : EStateM.Result ε σ α} {e : ε} (failed : answered outcome = .error e) :
    outcome = .error e (left outcome) := by
  cases outcome with
  | ok a s => cases failed
  | error fault s =>
    cases failed
    rfl

def Along (R : σ → σ → Prop) (x : EStateM ε σ α) : Prop := ∀ s, R s (left (x s))

namespace Along
variable {R : σ → σ → Prop}

theorem adapt {ε' : Type} {x : EStateM ε σ α} (change : ε → ε') (along : Along R x) :
    Along R (EStateM.adaptExcept change x) := by
  intro s
  have begun := along s
  cases ran : x s with
  | ok a t | error e t =>
    rw [ran] at begun
    simp only [EStateM.adaptExcept, ran]
    exact begun

variable [IsPreorder σ R]

theorem pure (a : α) : Along R (Pure.pure a : EStateM ε σ α) := fun s => refl_of R s

theorem throw (e : ε) : Along R (MonadExceptOf.throw e : EStateM ε σ α) := fun s => refl_of R s

theorem thrown (e : ε) (f : α → EStateM ε σ β) : Along R (MonadExcept.throw e >>= f) := fun s => refl_of R s

theorem unchanged {x : EStateM ε σ α} (same : Along Eq x) : Along R x := fun s => same s ▸ refl_of R s

theorem get : Along R (MonadState.get : EStateM ε σ σ) := fun s => refl_of R s

end Along

def Gives (P : α → Prop) (x : EStateM ε σ α) : Prop := ∀ s a t, x s = .ok a t → P a

namespace Gives
variable {P : α → Prop} {Q : β → Prop}

theorem pure {a : α} (given : P a) : Gives P (Pure.pure a : EStateM ε σ α) := by
  rintro s _ _ ⟨⟩
  exact given

theorem throw (e : ε) : Gives P (MonadExceptOf.throw e : EStateM ε σ α) := by
  rintro s _ _ ⟨⟩

theorem thrown (e : ε) (f : α → EStateM ε σ β) : Gives Q (MonadExcept.throw e >>= f) := by
  rintro s _ _ ⟨⟩

theorem bind {x : EStateM ε σ α} {f : α → EStateM ε σ β} (first : Gives P x)
    (rest : ∀ a, P a → Gives Q (f a)) : Gives Q (x >>= f) := by
  intro s b u ran
  obtain ⟨a, t, begun, ended⟩ := bind_parts ran
  exact rest a (first s a t begun) t b u ended

theorem after {x : EStateM ε σ α} {f : α → EStateM ε σ β} (rest : ∀ a, Gives Q (f a)) :
    Gives Q (x >>= f) := by
  intro s b u ran
  obtain ⟨a, t, -, ended⟩ := bind_parts ran
  exact rest a t b u ended

end Gives

def Fails (P : ε → Prop) (x : EStateM ε σ α) : Prop := ∀ s e t, x s = .error e t → P e

namespace Fails
variable {P : ε → Prop}

theorem answered {x : EStateM ε σ α} {s : σ} {e : ε} (fails : Fails P x) (failed : PluginBridge.answered (x s) = .error e) :
    P e := fails s e _ (answered_failed failed)

theorem widen {Q : ε → Prop} {x : EStateM ε σ α} (fails : Fails P x) (implies : ∀ e, P e → Q e) : Fails Q x :=
  fun s e t ran => implies e (fails s e t ran)

theorem pure (a : α) : Fails P (Pure.pure a : EStateM ε σ α) := by
  rintro s e t ⟨⟩

theorem throw {e : ε} (kind : P e) : Fails P (MonadExcept.throw e : EStateM ε σ α) := by
  rintro s e t ⟨⟩
  exact kind

theorem thrown {e : ε} {f : α → EStateM ε σ β} (kind : P e) : Fails P (MonadExcept.throw e >>= f) := by
  rintro s e t ⟨⟩
  exact kind

theorem bind {x : EStateM ε σ α} {f : α → EStateM ε σ β} (first : Fails P x) (rest : ∀ a, Fails P (f a)) :
    Fails P (x >>= f) := by
  intro s e t ran
  cases begun : x s with
  | ok a middle =>
    rw [bind_done begun] at ran
    exact rest a middle e t ran
  | error other middle =>
    rw [bind_failed begun] at ran
    cases ran
    exact first s _ _ begun

end Fails

theorem Along.bindGiven {R : σ → σ → Prop} [IsPreorder σ R] {P : α → Prop} {x : EStateM ε σ α}
    {f : α → EStateM ε σ β} (first : Along R x) (gives : Gives P x) (rest : ∀ a, P a → Along R (f a)) :
    Along R (x >>= f) := by
  intro s
  have begun := first s
  cases ran : x s with
  | ok a t =>
    rw [ran] at begun
    rw [bind_done ran]
    exact trans_of R begun (rest a (gives s a t ran) t)
  | error e t =>
    rw [ran] at begun
    rwa [bind_failed ran]

theorem Along.bind {R : σ → σ → Prop} [IsPreorder σ R] {x : EStateM ε σ α} {f : α → EStateM ε σ β}
    (first : Along R x) (rest : ∀ a, Along R (f a)) : Along R (x >>= f) :=
  @Along.bindGiven _ _ _ _ R _ (fun _ => True) x f first (fun _ _ _ _ => trivial) fun a _ => rest a

def endsWith (check : α → Bool) : EStateM.Result ε σ α → Bool
  | .ok a _ => check a
  | .error _ _ => false

theorem endsWith_done {check : α → Bool} {outcome : EStateM.Result ε σ α}
    (ends : endsWith check outcome = true) : ∃ a t, outcome = .ok a t ∧ check a = true := by
  cases outcome with
  | ok a t => exact ⟨a, t, rfl, ends⟩
  | error e t => cases ends

theorem get_done (s : σ) : (get : EStateM ε σ σ) s = .ok s s := rfl

theorem except_done {x : Except ε α} {f : α → Except ε β} {a : α} (ran : x = .ok a) :
    (x >>= f) = f a := by
  rw [ran]
  rfl

theorem except_map_map {γ : Type} (x : Except ε α) (f : α → β) (g : β → γ) :
    (x.map f).map g = x.map fun a => g (f a) := by
  cases x <;> rfl

theorem except_map_bind {γ : Type} (x : Except ε α) (f : α → β) (g : β → Except ε γ) :
    (x.map f >>= g) = x >>= fun a => g (f a) := by
  cases x <;> rfl

theorem except_bind_map {γ : Type} (x : Except ε α) (f : α → Except ε β) (g : β → γ) :
    (x >>= f).map g = x >>= fun a => (f a).map g := by
  cases x <;> rfl

theorem except_checked {x : Except ε α} {check : α → Bool} (checked : x.toOption.any check = true) :
    ∃ a, x = .ok a ∧ check a = true := by
  cases x with
  | ok a => exact ⟨a, rfl, checked⟩
  | error e => cases checked

theorem except_parts {x : Except ε α} {f : α → Except ε β} {b : β} (ran : (x >>= f) = .ok b) :
    ∃ a, x = .ok a ∧ f a = .ok b := by
  cases x with
  | ok a => exact ⟨a, rfl, ran⟩
  | error e => cases ran

theorem mapM_parts {f : α → Except ε β} {values : List α} {results : List β}
    (ran : values.mapM f = .ok results) : List.Forall₂ (fun a b => f a = .ok b) values results := by
  induction values generalizing results with
  | nil =>
    cases ran
    exact .nil
  | cons value rest ih =>
    rw [List.mapM_cons] at ran
    obtain ⟨b, first, ran⟩ := except_parts ran
    obtain ⟨bs, later, ran⟩ := except_parts ran
    cases ran
    exact .cons first (ih later)

end PluginBridge
