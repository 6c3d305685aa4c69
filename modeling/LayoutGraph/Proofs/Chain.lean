-- Work in a chain: what a chain of steps did when it ended well or badly,
-- which properties of the state every step of it keeps, and what holds where
-- it ends.
import LayoutGraph.Store.Request

namespace LayoutGraph.Chain

variable {ε σ α β : Type}

/-! ## How a chain ends -/

/-- The state that a run leaves, whichever way the run ended. -/
def left : EStateM.Result ε σ α → σ
  | .ok _ s => s
  | .error _ s => s

@[simp] theorem left_ok (a : α) (s : σ) : left (.ok a s : EStateM.Result ε σ α) = s := rfl

@[simp] theorem left_error (e : ε) (s : σ) : left (.error e s : EStateM.Result ε σ α) = s := rfl

theorem bind_ok_iff {x : EStateM ε σ α} {f : α → EStateM ε σ β} {s t : σ} {b : β} :
    (x >>= f) s = .ok b t ↔ ∃ a m, x s = .ok a m ∧ f a m = .ok b t := by
  show EStateM.bind x f s = _ ↔ _
  unfold EStateM.bind
  cases x s <;> simp [and_assoc]

theorem bind_error_iff {x : EStateM ε σ α} {f : α → EStateM ε σ β} {s t : σ} {e : ε} :
    (x >>= f) s = .error e t ↔
      x s = .error e t ∨ ∃ a m, x s = .ok a m ∧ f a m = .error e t := by
  show EStateM.bind x f s = _ ↔ _
  unfold EStateM.bind
  cases x s <;> simp [and_assoc]

theorem bind_of_ok {x : EStateM ε σ α} {f : α → EStateM ε σ β} {s t : σ} {a : α}
    (h : x s = .ok a t) : (x >>= f) s = f a t := by
  show EStateM.bind x f s = _
  unfold EStateM.bind
  rw [h]

theorem bind_of_error {x : EStateM ε σ α} {f : α → EStateM ε σ β} {s t : σ} {e : ε}
    (h : x s = .error e t) : (x >>= f) s = .error e t := by
  show EStateM.bind x f s = _
  unfold EStateM.bind
  rw [h]

theorem forM_cons_ok_iff {γ : Type} {f : γ → EStateM ε σ PUnit} {c : γ} {rest : List γ} {s t : σ}
    {u : PUnit} : (c :: rest).forM f s = .ok u t ↔
      ∃ v m, f c s = .ok v m ∧ rest.forM f m = .ok u t :=
  bind_ok_iff

theorem forM_cons_of_ok {γ : Type} {f : γ → EStateM ε σ PUnit} {c : γ} {rest : List γ} {s m : σ}
    {u : PUnit} (h : f c s = .ok u m) : (c :: rest).forM f s = rest.forM f m :=
  bind_of_ok h

@[simp] theorem get_apply (s : σ) : (get : EStateM ε σ σ) s = .ok s s := rfl

@[simp] theorem modify_apply (f : σ → σ) (s : σ) :
    (modify f : EStateM ε σ PUnit) s = .ok ⟨⟩ (f s) := rfl

/-! ## What a chain keeps -/

/-- The work leaves `P` true where it was true, also when it fails on the way. -/
def Keeps (P : σ → Prop) (x : EStateM ε σ α) : Prop := ∀ s, P s → P (left (x s))

variable {P : σ → Prop}

theorem Keeps.of_ok {x : EStateM ε σ α} (hx : Keeps P x) {s t : σ} {a : α} (hs : P s)
    (h : x s = .ok a t) : P t := by
  have hleft := hx s hs
  rw [h] at hleft
  exact hleft

theorem keeps_pure (a : α) : Keeps P (pure a : EStateM ε σ α) := fun _ h => h

theorem keeps_throw (e : ε) : Keeps P (throw e : EStateM ε σ α) := fun _ h => h

/-- What comes after a failure does not run. -/
theorem keeps_throw_bind (e : ε) (f : α → EStateM ε σ β) :
    Keeps P (throw e >>= f : EStateM ε σ β) := fun _ h => h

theorem keeps_get : Keeps P (get : EStateM ε σ σ) := fun _ h => h

theorem keeps_modify {f : σ → σ} (h : ∀ s, P s → P (f s)) :
    Keeps P (modify f : EStateM ε σ PUnit) := h

theorem keeps_bind {x : EStateM ε σ α} {f : α → EStateM ε σ β} (hx : Keeps P x)
    (hf : ∀ a, Keeps P (f a)) : Keeps P (x >>= f) := by
  intro s hs
  have hleft := hx s hs
  cases h : x s with
  | ok a t =>
    rw [bind_of_ok h]
    rw [h] at hleft
    exact hf a t hleft
  | error e t =>
    rw [bind_of_error h]
    rw [h] at hleft
    exact hleft

theorem keeps_forM {γ : Type} {f : γ → EStateM ε σ PUnit} (h : ∀ c, Keeps P (f c)) (l : List γ) :
    Keeps P (l.forM f) := by
  induction l with
  | nil => exact keeps_pure PUnit.unit
  | cons c rest ih => exact keeps_bind (h c) fun _ => ih

theorem keeps_mapM {γ : Type} {f : γ → EStateM ε σ β} (h : ∀ c, Keeps P (f c)) (l : List γ) :
    Keeps P (l.mapM f) := by
  induction l with
  | nil => exact keeps_pure []
  | cons c rest ih =>
    rw [List.mapM_cons]
    exact keeps_bind (h c) fun b => keeps_bind ih fun bs => keeps_pure (b :: bs)

/-! ## How a chain fails -/

/-- The work fails only in ways that `F` allows. -/
def Fails (F : ε → Prop) (x : EStateM ε σ α) : Prop := ∀ s e t, x s = .error e t → F e

variable {F : ε → Prop}

theorem fails_pure (a : α) : Fails F (pure a : EStateM ε σ α) := fun _ _ _ h => by cases h

theorem fails_throw {e : ε} (he : F e) : Fails F (throw e : EStateM ε σ α) :=
  fun _ _ _ h => by cases h; exact he

theorem fails_get : Fails F (get : EStateM ε σ σ) := fun _ _ _ h => by cases h

theorem fails_modify (f : σ → σ) : Fails F (modify f : EStateM ε σ PUnit) :=
  fun _ _ _ h => by cases h

theorem fails_bind {x : EStateM ε σ α} {f : α → EStateM ε σ β} (hx : Fails F x)
    (hf : ∀ a, Fails F (f a)) : Fails F (x >>= f) := by
  intro s e t h
  rcases bind_error_iff.mp h with h | ⟨a, m, -, h⟩
  · exact hx s e t h
  · exact hf a m e t h

theorem fails_forM_of_mem {γ : Type} {f : γ → EStateM ε σ PUnit} {l : List γ}
    (h : ∀ c ∈ l, Fails F (f c)) : Fails F (l.forM f) := by
  induction l with
  | nil => exact fails_pure PUnit.unit
  | cons c rest ih =>
    exact fails_bind (h c List.mem_cons_self) fun _ => ih fun d hd => h d (List.mem_cons_of_mem c hd)

theorem fails_forM {γ : Type} {f : γ → EStateM ε σ PUnit} (h : ∀ c, Fails F (f c)) (l : List γ) :
    Fails F (l.forM f) := fails_forM_of_mem fun c _ => h c

/-! ## Where a run ends -/

/-- Where the run ended well its result is as `Q` says, where it ended badly as `E` says. -/
def Ends (Q : α → σ → Prop) (E : ε → σ → Prop) : EStateM.Result ε σ α → Prop
  | .ok a t => Q a t
  | .error e t => E e t

variable {Q Q' : α → σ → Prop} {E E' : ε → σ → Prop}

theorem Ends.mono {r : EStateM.Result ε σ α} (h : Ends Q E r) (good : ∀ a t, Q a t → Q' a t)
    (bad : ∀ e t, E e t → E' e t) : Ends Q' E' r := by
  cases r with
  | ok a t => exact good a t h
  | error e t => exact bad e t h

theorem Ends.and {r : EStateM.Result ε σ α} (h : Ends Q E r) (h' : Ends Q' E' r) :
    Ends (fun a t => Q a t ∧ Q' a t) (fun e t => E e t ∧ E' e t) r := by
  cases r <;> exact ⟨h, h'⟩

theorem Keeps.ends {P : σ → Prop} {x : EStateM ε σ α} (hx : Keeps P x) {s : σ} (hs : P s) :
    Ends (fun _ => P) (fun _ => P) (x s) := by
  have hleft := hx s hs
  cases h : x s <;> rw [h] at hleft <;> exact hleft

theorem Ends.left {P : σ → Prop} {r : EStateM.Result ε σ α}
    (h : Ends (fun _ => P) (fun _ => P) r) : P (left r) := by
  cases r <;> exact h

theorem ends_bind {x : EStateM ε σ α} {f : α → EStateM ε σ β} {s : σ} {Q : β → σ → Prop}
    (h : Ends (fun a t => Ends Q E (f a t)) E (x s)) : Ends Q E ((x >>= f) s) := by
  cases hx : x s with
  | ok a t =>
    rw [bind_of_ok hx]
    rw [hx] at h
    exact h
  | error e t =>
    rw [bind_of_error hx]
    rw [hx] at h
    exact h

theorem ends_bind_of_ok {x : EStateM ε σ α} {f : α → EStateM ε σ β} {s t : σ} {a : α}
    {Q : β → σ → Prop} (hx : x s = .ok a t) (h : Ends Q E (f a t)) : Ends Q E ((x >>= f) s) := by
  rw [bind_of_ok hx]
  exact h

/-- The work that runs, apart from the state that it runs from. -/
theorem ends_apart {x : EStateM ε σ α} {s : σ} (h : ∀ work, work = x → Ends Q E (work s)) :
    Ends Q E (x s) := h x rfl

/-- The work goes on from `P` to `P`, and where it fails it ends in `F`. -/
def Goes (P F : σ → Prop) (x : EStateM ε σ α) : Prop :=
  ∀ s, P s → Ends (fun _ => P) (fun _ => F) (x s)

theorem Goes.keeps {x : EStateM ε σ α} (h : Goes P P x) : Keeps P x := fun s hs => (h s hs).left

theorem Keeps.goes {x : EStateM ε σ α} (h : Keeps P x) : Goes P P x := fun _ hs => h.ends hs

section

variable {F : σ → Prop}

theorem goes_pure (a : α) : Goes P F (pure a : EStateM ε σ α) := fun _ h => h

theorem goes_throw (h : ∀ s, P s → F s) (e : ε) : Goes P F (throw e : EStateM ε σ α) := h

/-- What comes after a failure does not run. -/
theorem goes_throw_bind (h : ∀ s, P s → F s) (e : ε) (f : α → EStateM ε σ β) :
    Goes P F (throw e >>= f : EStateM ε σ β) := h

theorem goes_modify {f : σ → σ} (h : ∀ s, P s → P (f s)) :
    Goes P F (modify f : EStateM ε σ PUnit) := h

theorem goes_bind {x : EStateM ε σ α} {f : α → EStateM ε σ β} (hx : Goes P F x)
    (hf : ∀ a, Goes P F (f a)) : Goes P F (x >>= f) := by
  intro s hs
  apply ends_bind
  exact (hx s hs).mono (fun a t ht => hf a t ht) fun _ _ failed => failed

theorem goes_get_bind {f : σ → EStateM ε σ α} (h : ∀ s, Goes P F (f s)) :
    Goes P F (get >>= f) := fun s hs => h s s hs

theorem goes_mapM {γ : Type} {f : γ → EStateM ε σ β} {l : List γ}
    (h : ∀ c ∈ l, Goes P F (f c)) : Goes P F (l.mapM f) := by
  induction l with
  | nil => exact goes_pure []
  | cons c rest ih =>
    rw [List.mapM_cons]
    refine goes_bind (h c List.mem_cons_self) fun b => ?_
    exact goes_bind (ih fun d hd => h d (List.mem_cons_of_mem c hd)) fun bs => goes_pure (b :: bs)

theorem goes_forM {γ : Type} {f : γ → EStateM ε σ PUnit} {l : List γ}
    (h : ∀ c ∈ l, Goes P F (f c)) : Goes P F (l.forM f) := by
  induction l with
  | nil => exact goes_pure PUnit.unit
  | cons c rest ih =>
    exact goes_bind (h c List.mem_cons_self) fun _ =>
      ih fun d hd => h d (List.mem_cons_of_mem c hd)

end

/-! ## Work that goes well -/

/-- From every state with `P` the work goes well and ends in a state with `R`. -/
def Succeeds (P R : σ → Prop) (x : EStateM ε σ α) : Prop :=
  ∀ s, P s → ∃ a t, x s = .ok a t ∧ R t

variable {R : σ → Prop}

theorem succeeds_pure (h : ∀ s, P s → R s) (a : α) : Succeeds P R (pure a : EStateM ε σ α) :=
  fun s hs => ⟨a, s, rfl, h s hs⟩

theorem succeeds_modify {f : σ → σ} (h : ∀ s, P s → R (f s)) :
    Succeeds P R (modify f : EStateM ε σ PUnit) := fun s hs => ⟨⟨⟩, f s, rfl, h s hs⟩

theorem succeeds_bind {x : EStateM ε σ α} {f : α → EStateM ε σ β} {M : σ → Prop}
    (hx : Succeeds P M x) (hf : ∀ a, Succeeds M R (f a)) : Succeeds P R (x >>= f) := by
  intro s hs
  obtain ⟨a, t, ha, ht⟩ := hx s hs
  rw [bind_of_ok ha]
  exact hf a t ht

theorem succeeds_get_bind {f : σ → EStateM ε σ α} (h : ∀ s, P s → Succeeds P R (f s)) :
    Succeeds P R (get >>= f) := fun s hs => h s hs s hs

theorem succeeds_forM {γ : Type} {f : γ → EStateM ε σ PUnit} (l : List γ)
    (h : ∀ c ∈ l, Succeeds P P (f c)) : Succeeds P P (l.forM f) := by
  induction l with
  | nil => exact succeeds_pure (fun _ hs => hs) PUnit.unit
  | cons c rest ih =>
    exact succeeds_bind (h c List.mem_cons_self) fun _ =>
      ih fun d hd => h d (List.mem_cons_of_mem _ hd)

/-! ## What is shown of a run -/

variable {τ ρ : Type}

/-- The run, seen by what is shown of its state. -/
def onState (f : σ → ρ) : EStateM.Result ε σ α → EStateM.Result ε ρ α
  | .ok a s => .ok a (f s)
  | .error e s => .error e (f s)

theorem onState_eq_ok {f : σ → ρ} {x : EStateM.Result ε σ α} {a : α} {v : ρ} :
    onState f x = .ok a v ↔ ∃ s, x = .ok a s ∧ f s = v := by
  cases x <;> simp [onState, and_assoc]

theorem onState_eq_error {f : σ → ρ} {x : EStateM.Result ε σ α} {e : ε} {v : ρ} :
    onState f x = .error e v ↔ ∃ s, x = .error e s ∧ f s = v := by
  cases x <;> simp [onState, and_assoc]

theorem onState_id (x : EStateM.Result ε σ α) : onState id x = x := by
  cases x <;> rfl

theorem left_onState (f : σ → ρ) (x : EStateM.Result ε σ α) : left (onState f x) = f (left x) := by
  cases x <;> rfl

/-- From states that show the same, both works end alike: with one result, in states that show the
same. -/
def SeenAlike (f : σ → ρ) (g : τ → ρ) (x : EStateM ε σ α) (y : EStateM ε τ α) : Prop :=
  ∀ s t, f s = g t → onState f (x s) = onState g (y t)

variable {f : σ → ρ} {g : τ → ρ}

theorem seenAlike_pure (a : α) : SeenAlike f g (pure a : EStateM ε σ α) (pure a) :=
  fun _ _ h => congrArg (EStateM.Result.ok a) h

theorem seenAlike_throw (e : ε) : SeenAlike f g (throw e : EStateM ε σ α) (throw e) :=
  fun _ _ h => congrArg (EStateM.Result.error e) h

theorem seenAlike_bind {x : EStateM ε σ α} {y : EStateM ε τ α} {k : α → EStateM ε σ β}
    {l : α → EStateM ε τ β} (h : SeenAlike f g x y) (next : ∀ a, SeenAlike f g (k a) (l a)) :
    SeenAlike f g (x >>= k) (y >>= l) := by
  intro s t hst
  have hxy := h s t hst
  cases hx : x s with
  | ok a m =>
    rw [hx] at hxy
    obtain ⟨n, hy, hn⟩ := onState_eq_ok.mp hxy.symm
    rw [bind_of_ok hx, bind_of_ok hy]
    exact next a m n hn.symm
  | error e m =>
    rw [hx] at hxy
    obtain ⟨n, hy, hn⟩ := onState_eq_error.mp hxy.symm
    rw [bind_of_error hx, bind_of_error hy]
    exact congrArg (EStateM.Result.error e) hn.symm

theorem seenAlike_forM {γ : Type} {k : γ → EStateM ε σ PUnit} {l : γ → EStateM ε τ PUnit}
    (h : ∀ c, SeenAlike f g (k c) (l c)) (cs : List γ) : SeenAlike f g (cs.forM k) (cs.forM l) := by
  induction cs with
  | nil => exact seenAlike_pure PUnit.unit
  | cons c rest ih => exact seenAlike_bind (h c) fun _ => ih

theorem seenAlike_mapM {γ : Type} {k : γ → EStateM ε σ β} {l : γ → EStateM ε τ β}
    (h : ∀ c, SeenAlike f g (k c) (l c)) (cs : List γ) : SeenAlike f g (cs.mapM k) (cs.mapM l) := by
  induction cs with
  | nil => exact seenAlike_pure []
  | cons c rest ih =>
    rw [List.mapM_cons, List.mapM_cons]
    exact seenAlike_bind (h c) fun b => seenAlike_bind ih fun bs => seenAlike_pure (b :: bs)

end LayoutGraph.Chain
