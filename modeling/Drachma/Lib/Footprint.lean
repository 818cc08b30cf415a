import Drachma.Lib.PartialRun

/-!
# Order independence of steps with disjoint footprints

A family of `view i : M → V i` reads a state `M` part by part.  A partial step
**acts on** part `i` when its outcome is determined by that part alone and it
leaves every other part as it was.  Two steps that act on different parts
commute, and a whole schedule of such steps gives one result in every order
(`foldlM_perm`).

Two refinements make the rule usable on a concrete system.  A state invariant
`inv` may be needed to keep the parts apart, and a step may need a `guard` to
stay inside its part; the guard is read off the step's own part, so a step
elsewhere cannot break it.
-/

namespace Machine

variable {ε M : Type*} {ι : Type*} {V : ι → Type*}

/-- `f` acts on part `i` of the state, wherever `inv` and `guard` hold. -/
structure ActsOn (inv : M → Prop) (view : ∀ i, M → V i) (i : ι)
    (guard : M → Prop) (f : M → Except ε M) : Prop where
  /-- The guard is a statement about part `i`. -/
  guard_congr : ∀ {m m'}, inv m → inv m' → view i m = view i m' → guard m → guard m'
  /-- The step keeps the invariant. -/
  preserves : ∀ {m x}, inv m → guard m → f m = .ok x → inv x
  /-- Part `i` determines whether the step succeeds and part `i` after it. -/
  congr : ∀ {m m' x}, inv m → inv m' → guard m → view i m = view i m' →
    f m = .ok x → ∃ x', f m' = .ok x' ∧ view i x = view i x'
  /-- No other part moves. -/
  frame : ∀ {m x}, inv m → guard m → f m = .ok x →
    ∀ j, j ≠ i → view j x = view j m

section Field

universe u

variable {ε : Type*} {M α : Type u} {ι : Type*} {V : ι → Type*} {β : Type*}
variable {inv : M → Prop} {view : ∀ i, M → V i} {i : ι}

/-- A step that computes a new value `a` from what it reads with `get`, and stores it
with `set`, acts on part `i` as soon as `get` and `set` do. -/
theorem ActsOn.of_field (get : M → β) (set : M → α → M) (g : β → Except ε α)
    (preserves : ∀ m a, inv m → inv (set m a))
    (reads : ∀ m m', view i m = view i m' → get m = get m')
    (writes : ∀ m m' a, view i m = view i m' → view i (set m a) = view i (set m' a))
    (frame : ∀ m a j, j ≠ i → view j (set m a) = view j m) :
    ActsOn inv view i (fun _ => True) (fun m => g (get m) >>= fun a => .ok (set m a)) where
  guard_congr _ _ _ _ := trivial
  preserves := by
    intro m x hinv _ h
    obtain ⟨a, -, h⟩ := bind_eq_ok.mp h
    obtain rfl := Except.ok.inj h
    exact preserves m a hinv
  congr := by
    intro m m' x _ _ _ same h
    obtain ⟨a, ha, h⟩ := bind_eq_ok.mp h
    obtain rfl := Except.ok.inj h
    rw [reads m m' same] at ha
    exact ⟨set m' a, bind_eq_ok.mpr ⟨a, ha, rfl⟩, writes m m' a same⟩
  frame := by
    intro m x _ _ h j hj
    obtain ⟨a, -, h⟩ := bind_eq_ok.mp h
    obtain rfl := Except.ok.inj h
    exact frame m a j hj

end Field

section Commute

variable {inv : M → Prop} {view : ∀ i, M → V i} {i j : ι}
variable {guardF guardG : M → Prop} {f g : M → Except ε M}

/-- **Steps on different parts commute**, faults aside: if `f` and then `g`
succeed, so do `g` and then `f`, and they arrive at the same state. -/
theorem ActsOn.comm (ext : ∀ m m', (∀ i, view i m = view i m') → m = m')
    (hf : ActsOn inv view i guardF f) (hg : ActsOn inv view j guardG g)
    (hij : i ≠ j) {m a b : M} (hinv : inv m) (hgF : guardF m) (hgG : guardG m)
    (hfa : f m = .ok a) (hgb : g a = .ok b) :
    ∃ a', g m = .ok a' ∧ f a' = .ok b := by
  have haj : view j a = view j m := hf.frame hinv hgF hfa j hij.symm
  have hinvA : inv a := hf.preserves hinv hgF hfa
  have hgGA : guardG a := hg.guard_congr hinv hinvA haj.symm hgG
  -- `g` reads the same part before and after `f`
  obtain ⟨a', hga', hba'⟩ := hg.congr hinvA hinv hgGA haj hgb
  have ha'i : view i a' = view i m := hg.frame hinv hgG hga' i hij
  have hinvA' : inv a' := hg.preserves hinv hgG hga'
  obtain ⟨b', hfb', hab'⟩ := hf.congr hinv hinvA' hgF ha'i.symm hfa
  refine ⟨a', hga', ?_⟩
  rw [hfb']
  congr 1
  refine (ext b b' fun l => ?_).symm
  have hgF' : guardF a' := hf.guard_congr hinv hinvA' ha'i.symm hgF
  rcases eq_or_ne l i with rfl | hli
  · rw [hg.frame hinvA hgGA hgb l hij, hab']
  rcases eq_or_ne l j with rfl | hlj
  · rw [hba', hf.frame hinvA' hgF' hfb' l hij.symm]
  · rw [hg.frame hinvA hgGA hgb l hlj, hf.frame hinv hgF hfa l hli,
      hf.frame hinvA' hgF' hfb' l hli, hg.frame hinv hgG hga' l hlj]

end Commute

section Schedule

variable {κ : Type*} {inv : M → Prop} {view : ∀ i, M → V i}
variable {part : κ → ι} {guard : κ → M → Prop} {step : κ → M → Except ε M}

/-- One step leaves the guards of the other scheduled steps standing. -/
private theorem guard_of_step (acts : ∀ k, ActsOn inv view (part k) (guard k) (step k))
    (hpart : Function.Injective part) {k k' : κ} (hne : k' ≠ k) {m a : M}
    (hinv : inv m) (hk : guard k m) (hk' : guard k' m) (ha : step k m = .ok a) :
    guard k' a :=
  (acts k').guard_congr hinv ((acts k).preserves hinv hk ha)
    ((acts k).frame hinv hk ha (part k') fun h => hne (hpart h)).symm hk'

/-- **Any order of a schedule.**  Steps acting on pairwise different parts,
each scheduled once, give the same final state in every order in which none of
them faults. -/
theorem foldlM_perm (ext : ∀ m m', (∀ i, view i m = view i m') → m = m')
    (acts : ∀ k, ActsOn inv view (part k) (guard k) (step k))
    (hpart : Function.Injective part) {l l' : List κ} (hperm : l.Perm l') :
    l.Nodup → ∀ {m x : M}, inv m → (∀ k ∈ l, guard k m) →
      l.foldlM (fun m k => step k m) m = .ok x →
        l'.foldlM (fun m k => step k m) m = .ok x := by
  induction hperm with
  | nil => intro _ m x _ _ h; exact h
  | cons k _ ih =>
      intro hnodup m x hinv hguards h
      rw [List.foldlM_cons, bind_eq_ok] at h ⊢
      obtain ⟨a, ha, h⟩ := h
      rw [List.nodup_cons] at hnodup
      refine ⟨a, ha, ih hnodup.2 ?_ ?_ h⟩
      · exact (acts k).preserves hinv (hguards k List.mem_cons_self) ha
      · intro k' hk'
        refine guard_of_step acts hpart ?_ hinv (hguards k List.mem_cons_self)
          (hguards k' (List.mem_cons_of_mem _ hk')) ha
        rintro rfl
        exact hnodup.1 hk'
  | swap k k' l =>
      intro hnodup m x hinv hguards h
      have hne : part k' ≠ part k := by
        intro heq
        rw [hpart heq] at hnodup
        exact (List.nodup_cons.mp hnodup).1 List.mem_cons_self
      simp only [List.foldlM_cons, bind_eq_ok] at h ⊢
      obtain ⟨a, ha, b, hb, h⟩ := h
      have hk' : guard k' m := hguards k' List.mem_cons_self
      have hk : guard k m := hguards k (List.mem_cons_of_mem _ List.mem_cons_self)
      obtain ⟨a', ha', hb'⟩ :=
        (acts k').comm ext (acts k) hne hinv hk' hk ha hb
      exact ⟨a', ha', b, hb', h⟩
  | trans hp _ ih₁ ih₂ =>
      intro hnodup m x hinv hguards h
      refine ih₂ (hp.nodup_iff.mp hnodup) hinv ?_ (ih₁ hnodup hinv hguards h)
      exact fun k hk => hguards k (hp.mem_iff.mpr hk)

/-- **Each step of a schedule acts as if it was alone.**  The state after a
schedule has, in each part, what the one step scheduled there makes of the state
before it. -/
theorem foldlM_part (acts : ∀ k, ActsOn inv view (part k) (guard k) (step k))
    (hpart : Function.Injective part) {l : List κ} (hnodup : l.Nodup) {m x : M}
    (hinv : inv m) (hguards : ∀ k ∈ l, guard k m)
    (h : l.foldlM (fun m k => step k m) m = .ok x) :
    inv x ∧ (∀ k ∈ l, ∃ y, step k m = .ok y ∧ view (part k) x = view (part k) y) ∧
      ∀ i, (∀ k ∈ l, part k ≠ i) → view i x = view i m := by
  induction l generalizing m with
  | nil => cases h; exact ⟨hinv, by simp, fun _ _ => rfl⟩
  | cons k l ih =>
      rw [List.foldlM_cons, bind_eq_ok] at h
      obtain ⟨a, ha, h⟩ := h
      rw [List.nodup_cons] at hnodup
      have hk : guard k m := hguards k List.mem_cons_self
      have hinvA : inv a := (acts k).preserves hinv hk ha
      have hne : ∀ k' ∈ l, k' ≠ k := fun k' hk' heq => hnodup.1 (heq ▸ hk')
      have hguardsA : ∀ k' ∈ l, guard k' a := fun k' hk' =>
        guard_of_step acts hpart (hne k' hk') hinv hk
          (hguards k' (List.mem_cons_of_mem _ hk')) ha
      obtain ⟨hinvX, stepped, others⟩ := ih hnodup.2 hinvA hguardsA h
      refine ⟨hinvX, fun k' hk' => ?_, fun i hi => ?_⟩
      · rcases List.mem_cons.mp hk' with rfl | hmem
        · exact ⟨a, ha, others (part k') fun k'' hk'' heq => hne k'' hk'' (hpart heq)⟩
        · -- `k'` runs on `a`, which agrees with `m` on the part of `k'`
          obtain ⟨y, hy, hview⟩ := stepped k' hmem
          have haj : view (part k') a = view (part k') m :=
            (acts k).frame hinv hk ha (part k') fun h => hne k' hmem (hpart h)
          obtain ⟨y', hy', hview'⟩ :=
            (acts k').congr hinvA hinv (hguardsA k' hmem) haj hy
          exact ⟨y', hy', hview.trans hview'⟩
      · rw [others i fun k' hk' => hi k' (List.mem_cons_of_mem _ hk')]
        exact (acts k).frame hinv hk ha i fun heq => hi k List.mem_cons_self heq.symm

end Schedule

end Machine
