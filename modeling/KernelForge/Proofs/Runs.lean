import KernelForge.Codegen.Assembler

/-!
# Successful runs of builder steps

Steps of a session, of a function body and of an assembler are state transformers that may fail.
The laws below take a successful run of a compound step apart into successful runs of its parts;
later modules reason about runs and never unfold a monad again.
-/

namespace KernelForge

open List hiding get modify

section Plain

variable {ε σ α β : Type} {x : EStateM ε σ α} {f : α → EStateM ε σ β} {s s' : σ} {a : α}

/-- A compound step succeeds when its first part does and then its second. -/
theorem bind_ok {s'' : σ} {b : β} :
    (x >>= f) s = .ok b s'' ↔ ∃ a s', x s = .ok a s' ∧ f a s' = .ok b s'' := by
  show EStateM.bind x f s = _ ↔ _
  unfold EStateM.bind
  cases hx : x s with
  | ok a s' =>
    constructor
    · intro h
      exact ⟨a, s', rfl, h⟩
    · rintro ⟨a', t, heq, h⟩
      cases heq
      exact h
  | error =>
    constructor
    · intro h
      cases h
    · rintro ⟨a', t, heq, _⟩
      cases heq

/-- A step that only looks, and what follows it. -/
theorem look_ok {P : α → Prop} {b : β} (hx : ∀ {a t}, x s = .ok a t → P a ∧ s = t)
    (h : (x >>= f) s = .ok b s') : ∃ a, P a ∧ f a s = .ok b s' := by
  obtain ⟨a, _, hrun, h⟩ := bind_ok.1 h
  obtain ⟨ha, rfl⟩ := hx hrun
  exact ⟨a, ha, h⟩

theorem bind_of_ok (h : x s = .ok a s') : (x >>= f) s = f a s' := by
  show EStateM.bind x f s = _
  rw [EStateM.bind, h]

theorem bind_of_error {e : ε} (h : x s = .error e s') : (x >>= f) s = .error e s' := by
  show EStateM.bind x f s = _
  rw [EStateM.bind, h]

/-- A compound step fails in its first part, or in its second after the first. -/
theorem bind_error {s'' : σ} {e : ε} :
    (x >>= f) s = .error e s'' ↔
      x s = .error e s'' ∨ ∃ a s', x s = .ok a s' ∧ f a s' = .error e s'' := by
  show EStateM.bind x f s = _ ↔ _
  unfold EStateM.bind
  cases x s <;> simp [and_assoc]

/-- A loop fails in one of its steps, and leaves what that step left. -/
theorem forM_error {l : List α} {g : α → EStateM ε σ PUnit} {e : ε}
    (h : l.forM g s = .error e s') : ∃ a ∈ l, ∃ t, g a t = .error e s' := by
  induction l generalizing s with
  | nil => cases h
  | cons a l ih =>
    rcases bind_error.1 h with h | ⟨_, t, _, h⟩
    · exact ⟨a, mem_cons_self, s, h⟩
    · obtain ⟨b, hb, hfails⟩ := ih h
      exact ⟨b, mem_cons_of_mem _ hb, hfails⟩

theorem pure_ok {b : α} : (pure a : EStateM ε σ α) s = .ok b s' ↔ a = b ∧ s = s' := by
  show EStateM.Result.ok a s = _ ↔ _
  simp

theorem get_ok {a : σ} : (get : EStateM ε σ σ) s = .ok a s' ↔ s = a ∧ s = s' := by
  show EStateM.Result.ok s s = _ ↔ _
  simp

theorem modify_ok {f : σ → σ} {u : PUnit} :
    (modify f : EStateM ε σ PUnit) s = .ok u s' ↔ f s = s' := by
  show EStateM.Result.ok PUnit.unit (f s) = _ ↔ _
  simp

theorem modifyGet_ok {f : σ → α × σ} :
    (modifyGet f : EStateM ε σ α) s = .ok a s' ↔ f s = (a, s') := by
  show (match f s with | (a, s) => EStateM.Result.ok a s) = _ ↔ _
  rcases f s with ⟨b, t⟩
  simp

theorem get_bind (f : σ → EStateM ε σ α) (s : σ) : (get >>= f) s = f s s := rfl

theorem get_bind_ok {f : σ → EStateM ε σ α} : (get >>= f) s = .ok a s' ↔ f s s = .ok a s' := .rfl

theorem modify_bind_ok {g : σ → σ} {f : PUnit → EStateM ε σ α} :
    (modify g >>= f) s = .ok a s' ↔ f ⟨⟩ (g s) = .ok a s' := .rfl

theorem throw_ok {e : ε} : (throw e : EStateM ε σ α) s ≠ .ok a s' := by
  show EStateM.Result.error e s ≠ _
  simp

/-- A handler that fails in every case lets no failure pass. -/
theorem tryCatch_ok {handle : ε → EStateM ε σ α} (hfails : ∀ e t, handle e t ≠ .ok a s') :
    (tryCatch x handle : EStateM ε σ α) s = .ok a s' ↔ x s = .ok a s' := by
  show EStateM.tryCatch x handle s = _ ↔ _
  unfold EStateM.tryCatch
  cases x s with
  | ok => rfl
  | error e =>
    constructor
    · intro h
      exact absurd h (hfails e _)
    · intro h
      cases h

theorem ofExcept_ok {e : Except ε α} :
    (ofExcept e : EStateM ε σ α) s = .ok a s' ↔ e = .ok a ∧ s = s' := by
  cases e with
  | error e =>
    show EStateM.Result.error e s = _ ↔ _
    simp
  | ok b =>
    show EStateM.Result.ok b s = _ ↔ _
    simp

theorem exists_of_isOk {x : Except ε α} (h : x.isOk = true) : ∃ a, x = .ok a := by
  cases x with
  | ok a => exact ⟨a, rfl⟩
  | error => cases h

theorem mapM_cons_ok {l : List α} {r : List β} (h : (a :: l).mapM f s = .ok r s') :
    ∃ b s₁ bs, f a s = .ok b s₁ ∧ l.mapM f s₁ = .ok bs s' ∧ r = b :: bs := by
  rw [List.mapM_cons] at h
  obtain ⟨b, s₁, hfirst, h⟩ := bind_ok.1 h
  obtain ⟨bs, s₂, hrest, h⟩ := bind_ok.1 h
  obtain ⟨rfl, rfl⟩ := pure_ok.1 h
  exact ⟨b, s₁, bs, hfirst, hrest, rfl⟩

end Plain

namespace Codegen

open Spirv (Id)

/-! ## Steps of a session

A function body and an assembler take the steps of the session they hold in the same way. -/

section Within

variable {σ α β : Type} {session : σ → Session} {put : σ → Session → σ} {step : Build α} {s s' : σ}

theorem within_ok {a : α} :
    step.within session put s = .ok a s' ↔ ∃ t, step (session s) = .ok a t ∧ put s t = s' := by
  unfold Build.within
  cases step (session s) with
  | ok => simp [and_assoc]
  | error => simp

theorem within_bind_ok {f : α → EStateM Error σ β} {y : β}
    (h : (step.within session put >>= f) s = .ok y s') :
    ∃ a t, step (session s) = .ok a t ∧ f a (put s t) = .ok y s' := by
  obtain ⟨a, _, hrun, h⟩ := bind_ok.1 h
  obtain ⟨t, hstep, rfl⟩ := within_ok.1 hrun
  exact ⟨a, t, hstep, h⟩

/-- A compound step of the session is taken part after part. -/
theorem within_bind {f : α → Build β} (hsession : ∀ s t, session (put s t) = t)
    (hput : ∀ s t t', put (put s t) t' = put s t') :
    (step >>= f).within session put =
      step.within session put >>= fun a => (f a).within session put := by
  funext s
  simp only [Build.within, bind, EStateM.bind]
  cases step (session s) with
  | ok => simp only [hsession, hput]
  | error => rfl

end Within

/-! ## Steps inside a function

A step inside a function reads its scope first; what is left is a plain step. -/

namespace Emit

variable {α β : Type} (scope : Scope)

theorem bind_apply (x : Emit α) (f : α → Emit β) :
    (x >>= f) scope = (x scope >>= fun a => f a scope) := rfl

theorem pure_apply (a : α) : (pure a : Emit α) scope = pure a := rfl

theorem read_apply : (read : Emit Scope) scope = pure scope := rfl

theorem ofExcept_apply (e : Except Error α) : (ofExcept e : Emit α) scope = ofExcept e := by
  cases e <;> rfl

theorem forM_apply (l : List α) (f : α → Emit PUnit) :
    (l.forM f) scope = l.forM fun a => f a scope := by
  induction l with
  | nil => rfl
  | cons a l ih =>
    show (f a >>= fun _ => l.forM f) scope = _
    rw [bind_apply, ih]
    rfl

theorem mapM_apply (l : List α) (f : α → Emit β) :
    (l.mapM f) scope = l.mapM fun a => f a scope := by
  induction l with
  | nil => rfl
  | cons a l ih =>
    rw [mapM_cons, mapM_cons, bind_apply]
    congr 1
    funext b
    rw [bind_apply, ih]
    rfl

theorem build_ok {step : Build α} {b b' : Body} {a : α} : build step scope b = .ok a b' ↔
    ∃ session, step b.session = .ok a session ∧ { b with session } = b' := within_ok

variable {scope} in
theorem build_bind_ok {step : Build α} {f : α → EStateM Error Body β} {b b' : Body} {y : β}
    (h : (build step scope >>= f) b = .ok y b') :
    ∃ a session, step b.session = .ok a session ∧ f a { b with session } = .ok y b' :=
  within_bind_ok h

end Emit

/-! ## Steps of an assembler -/

namespace Assemble

variable {α : Type} {step : Build α} {a a' : Assembler}

theorem build_ok {x : α} : build step a = .ok x a' ↔
    ∃ session, step a.session = .ok x session ∧ { a with session } = a' := within_ok

theorem build_bind_ok {β : Type} {f : α → Assemble β} {y : β}
    (h : (build step >>= f) a = .ok y a') :
    ∃ x session, step a.session = .ok x session ∧ f x { a with session } = .ok y a' :=
  within_bind_ok h

theorem inFunction_ok {scope : Scope} {steps : Emit α} {x : α} :
    inFunction scope steps a = .ok x a' ↔
      ∃ b, steps scope ⟨a.session, a.symbols⟩ = .ok x b ∧
        { a with session := b.session, symbols := b.symbols } = a' := by
  unfold inFunction
  cases steps scope ⟨a.session, a.symbols⟩ with
  | ok => simp [and_assoc]
  | error => simp

end Assemble

/-! ## Runs that keep an invariant -/

section Preserves

variable {ε σ α β : Type} {I : σ → Prop}

/-- A step that leads from one invariant to another when it succeeds. -/
def Moves (I : σ → Prop) (x : EStateM ε σ α) (J : σ → Prop) : Prop :=
  ∀ ⦃s a s'⦄, x s = .ok a s' → I s → J s'

/-- A step that keeps an invariant when it succeeds. -/
abbrev Preserves (I : σ → Prop) (x : EStateM ε σ α) : Prop := Moves I x I

namespace Preserves

variable {x : EStateM ε σ α} {f : α → EStateM ε σ β} {l : List β}

theorem bind (hx : Preserves I x) (hf : ∀ a, Preserves I (f a)) : Preserves I (x >>= f) := by
  intro s b s'' h hs
  obtain ⟨a, s', hxa, hfa⟩ := bind_ok.1 h
  exact hf a hfa (hx hxa hs)

theorem pure (a : α) : Preserves I (Pure.pure a : EStateM ε σ α) := by
  intro s b s' h hs
  obtain ⟨-, rfl⟩ := pure_ok.1 h
  exact hs

theorem get {g : σ → EStateM ε σ α} (h : ∀ s, Preserves I (g s)) :
    Preserves I (MonadState.get >>= g) := by
  intro s a s' hrun
  exact h s hrun

theorem note {g : σ → σ} (h : ∀ s, I s → I (g s)) : Preserves I (modify g : EStateM ε σ PUnit) := by
  intro s u s' hrun hs
  cases modify_ok.1 hrun
  exact h s hs

theorem mapM {g : β → EStateM ε σ α} (h : ∀ b, Preserves I (g b)) : Preserves I (l.mapM g) := by
  induction l with
  | nil => exact pure []
  | cons b l ih =>
    rw [mapM_cons]
    exact (h b).bind fun a => ih.bind fun as => pure _

theorem forM {g : β → EStateM ε σ PUnit} (h : ∀ b ∈ l, Preserves I (g b)) :
    Preserves I (l.forM g) := by
  induction l with
  | nil => exact pure _
  | cons b l ih =>
    obtain ⟨hb, hl⟩ := forall_mem_cons.1 h
    exact hb.bind fun _ => ih hl

theorem foldlM {γ : Type} {g : γ → β → EStateM ε σ γ} (h : ∀ c b, Preserves I (g c b))
    (c : γ) : Preserves I (l.foldlM g c) := by
  induction l generalizing c with
  | nil => exact pure c
  | cons b l ih =>
    exact (h c b).bind ih

end Preserves

end Preserves

/-! ## Runs from invariant to invariant

`Takes I K x needs J gives`: from a state with `I` in which the ids `needs` are known, a successful
run of `x` leads to a state with `J`, forgets no known id, and knows the ids `gives` of its
result. -/

section Takes

variable {ε σ α β : Type} {K : σ → Id → Prop}

def Takes (I : σ → Prop) (K : σ → Id → Prop) (x : EStateM ε σ α) (needs : List Id)
    (J : α → σ → Prop) (gives : α → List Id) : Prop :=
  ∀ ⦃s a s'⦄, I s → (∀ id ∈ needs, K s id) → x s = .ok a s' →
    J a s' ∧ (∀ id, K s id → K s' id) ∧ ∀ id ∈ gives a, K s' id

/-- A run that keeps its invariant. -/
abbrev Keeps (I : σ → Prop) (K : σ → Id → Prop) (x : EStateM ε σ α) (needs : List Id)
    (gives : α → List Id) : Prop :=
  Takes I K x needs (fun _ => I) gives

namespace Takes

variable {x : EStateM ε σ α} {f : α → EStateM ε σ β} {needs : List Id} {I : σ → Prop}
  {J : α → σ → Prop} {gives : α → List Id}

/-- A part of a compound step may use what the parts before it gave. -/
theorem bind {L : β → σ → Prop} {mid : α → List Id}
    {gives : β → List Id} (hx : Takes I K x needs J mid)
    (hf : ∀ a, Takes (J a) K (f a) (mid a ++ needs) L gives) :
    Takes I K (x >>= f) needs L gives := by
  intro s b s'' hs hn h
  obtain ⟨a, s', hxa, hfa⟩ := bind_ok.1 h
  obtain ⟨hs', hk, hm⟩ := hx hs hn hxa
  have hn' : ∀ id ∈ mid a ++ needs, K s' id :=
    forall_mem_append.2 ⟨hm, fun id hid => hk id (hn id hid)⟩
  obtain ⟨hs'', hk', hg⟩ := hf a hs' hn' hfa
  exact ⟨hs'', fun id hid => hk' id (hk id hid), hg⟩

theorem pure {a : α} (h : gives a ⊆ needs) :
    Keeps I K (Pure.pure a : EStateM ε σ α) needs gives := by
  intro s b s' hs hn hp
  obtain ⟨rfl, rfl⟩ := pure_ok.1 hp
  exact ⟨hs, fun _ hid => hid, fun id hid => hn id (h hid)⟩

theorem throw {e : ε} : Takes I K (MonadExcept.throw e : EStateM ε σ α) needs J gives :=
  fun _ _ _ _ _ h => absurd h throw_ok

theorem weaken {needs' : List Id} {gives' : α → List Id}
    (h : Takes I K x needs J gives) (hn : needs ⊆ needs') (hg : ∀ a, gives' a ⊆ gives a) :
    Takes I K x needs' J gives' := by
  intro s a s' hs hk hx
  obtain ⟨hs', hmono, hgives⟩ := h hs (fun id hid => hk id (hn hid)) hx
  exact ⟨hs', hmono, fun id hid => hgives id (hg a hid)⟩

theorem forM {l : List α} {g : α → EStateM ε σ PUnit}
    (h : ∀ a ∈ l, Keeps I K (g a) needs fun _ => []) : Keeps I K (l.forM g) needs fun _ => [] := by
  induction l with
  | nil => exact pure (nil_subset _)
  | cons a l ih =>
    have hrest := ih fun a ha => h a (mem_cons_of_mem _ ha)
    have hcons : Keeps I K (g a >>= fun _ => l.forM g) needs fun _ => [] :=
      (h a mem_cons_self).bind fun _ => hrest
    exact hcons

theorem mapM {l : List α} {gives : β → List Id} (h : ∀ a ∈ l, Keeps I K (f a) needs gives) :
    Keeps I K (l.mapM f) needs fun bs => bs.flatMap gives := by
  induction l with
  | nil => exact pure (nil_subset _)
  | cons a l ih =>
    rw [mapM_cons]
    refine (h a mem_cons_self).bind fun b => ?_
    have hrest := ih fun a ha => h a (mem_cons_of_mem _ ha)
    refine (hrest.weaken (subset_append_right _ _) fun _ => List.Subset.refl _).bind fun bs => ?_
    refine pure ?_
    intro id hid
    rw [flatMap_cons, mem_append] at hid
    rcases hid with hid | hid
    · exact mem_append_right _ (mem_append_left _ hid)
    · exact mem_append_left _ hid

end Takes

end Takes

end Codegen

end KernelForge
