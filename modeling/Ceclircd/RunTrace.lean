import Mathlib.Data.List.Basic
set_option autoImplicit false

/-! Runs of a partial step function that reports observations, and the
induction rules for what holds along every run. -/

namespace RunTrace

variable {σ α ε : Type}

/-- A step either is not enabled, or gives the next state and what it reports. -/
abbrev StepFn (σ α ε : Type) := σ → α → Option (σ × List ε)

def run (step : StepFn σ α ε) : σ → List α → Option (σ × List ε)
  | s, [] => some (s,[])
  | s, a :: as => do
      let (t,es) ← step s a
      let (u,fs) ← run step t as
      pure (u,es ++ fs)

@[simp] theorem run_nil (step : StepFn σ α ε) (s : σ) : run step s [] = some (s,[]) := rfl

theorem run_cons_iff {step : StepFn σ α ε} {s u : σ} {a : α} {as : List α} {tr : List ε} :
    run step s (a :: as) = some (u,tr) ↔
      ∃ t es fs, step s a = some (t,es) ∧ run step t as = some (u,fs) ∧ tr = es ++ fs := by
  constructor
  · intro h
    simp only [run,Option.bind_eq_bind,Option.bind_eq_some_iff,Option.pure_def,
      Option.some.injEq,Prod.mk.injEq] at h
    obtain ⟨⟨t,es⟩,hs,⟨v,fs⟩,hr,hu,ht⟩ := h
    refine ⟨t,es,fs,hs,?_,ht.symm⟩
    rw [← hu]
    exact hr
  · rintro ⟨t,es,fs,hs,hr,rfl⟩
    simp [run,hs,hr]

theorem run_append_iff {step : StepFn σ α ε} {as bs : List α} {s u : σ} {tr : List ε} :
    run step s (as ++ bs) = some (u,tr) ↔
      ∃ t es fs, run step s as = some (t,es) ∧ run step t bs = some (u,fs) ∧ tr = es ++ fs := by
  induction as generalizing s tr with
  | nil => simp
  | cons a as ih =>
    simp only [List.cons_append,run_cons_iff,ih]
    constructor
    · rintro ⟨t,es,_,hs,⟨v,fs,gs,hf,hg,rfl⟩,rfl⟩
      exact ⟨v,es ++ fs,gs,⟨t,es,fs,hs,hf,rfl⟩,hg,by simp⟩
    · rintro ⟨v,_,gs,⟨t,es,fs,hs,hf,rfl⟩,hg,rfl⟩
      exact ⟨t,es,fs ++ gs,hs,⟨v,fs,gs,hf,hg,rfl⟩,by simp⟩

theorem run_singleton_iff {step : StepFn σ α ε} {s t : σ} {a : α} {tr : List ε} :
    run step s [a] = some (t,tr) ↔ step s a = some (t,tr) := by
  constructor
  · intro h
    obtain ⟨u,es,fs,hs,hr,rfl⟩ := run_cons_iff.mp h
    simp only [run_nil,Option.some.injEq,Prod.mk.injEq] at hr
    obtain ⟨rfl,rfl⟩ := hr
    simpa using hs
  · intro h
    exact run_cons_iff.mpr ⟨t,tr,[],h,rfl,by simp⟩

def EveryStep (step : StepFn σ α ε) (G : σ → α → Prop) (s : σ) (as : List α) : Prop :=
  ∀ pre a post t tr, as = pre ++ a :: post → run step s pre = some (t,tr) → G t a

theorem EveryStep.head {step : StepFn σ α ε} {G : σ → α → Prop} {s : σ} {a : α} {as : List α}
    (h : EveryStep step G s (a :: as)) : G s a := h [] a as s [] rfl rfl

theorem EveryStep.tail {step : StepFn σ α ε} {G : σ → α → Prop} {s t : σ} {a : α}
    {as : List α} {es : List ε} (h : EveryStep step G s (a :: as))
    (hs : step s a = some (t,es)) : EveryStep step G t as := by
  intro pre b post u tr heq hr
  refine h (a :: pre) b post u (es ++ tr) (by simp [heq]) ?_
  exact run_cons_iff.mpr ⟨t,es,tr,hs,hr,rfl⟩

theorem everyStep_true (step : StepFn σ α ε) (s : σ) (as : List α) :
    EveryStep step (fun _ _ => True) s as := fun _ _ _ _ _ _ _ => trivial

theorem everyStep_of_forall {step : StepFn σ α ε} {P : α → Prop} {as : List α} (s : σ)
    (h : ∀ a ∈ as, P a) : EveryStep step (fun _ a => P a) s as := by
  rintro pre a post t tr rfl _
  exact h a (by simp)

theorem EveryStep.mono {step : StepFn σ α ε} {G H : σ → α → Prop} {s : σ} {as : List α}
    (h : EveryStep step G s as) (himp : ∀ t a, G t a → H t a) : EveryStep step H s as :=
  fun pre a post t tr heq hr => himp t a (h pre a post t tr heq hr)

theorem EveryStep.and {step : StepFn σ α ε} {G H : σ → α → Prop} {s : σ} {as : List α}
    (h₁ : EveryStep step G s as) (h₂ : EveryStep step H s as) :
    EveryStep step (fun t a => G t a ∧ H t a) s as :=
  fun pre a post t tr heq hr => ⟨h₁ pre a post t tr heq hr,h₂ pre a post t tr heq hr⟩

def checkSteps (step : StepFn σ α ε) (G : σ → α → Prop) [∀ s a, Decidable (G s a)] :
    σ → List α → Bool
  | _, [] => true
  | s, a :: as => decide (G s a) &&
      match step s a with
      | none => true
      | some (t,_) => checkSteps step G t as

theorem everyStep_of_check {step : StepFn σ α ε} {G : σ → α → Prop}
    [∀ s a, Decidable (G s a)] {s : σ} {as : List α} (h : checkSteps step G s as = true) :
    EveryStep step G s as := by
  induction as generalizing s with
  | nil => intro pre a post t tr heq; simp at heq
  | cons a as ih =>
    simp only [checkSteps,Bool.and_eq_true,decide_eq_true_eq] at h
    intro pre b post t tr heq hr
    cases pre with
    | nil =>
      simp only [List.nil_append,List.cons.injEq] at heq
      simp only [run_nil,Option.some.injEq,Prod.mk.injEq] at hr
      rw [← hr.1,← heq.1]
      exact h.1
    | cons x pre =>
      simp only [List.cons_append,List.cons.injEq] at heq
      obtain ⟨rfl,heq⟩ := heq
      obtain ⟨u,es,fs,hs,hr,_⟩ := run_cons_iff.mp hr
      have hrest := h.2
      rw [hs] at hrest
      exact ih hrest pre b post t fs heq hr

/-- What one guarded step keeps of the state, the actions taken and the trace, a run
of guarded steps keeps. -/
theorem history_of_everyStep {step : StepFn σ α ε} {G : σ → α → Prop}
    {I : σ → List α → List ε → Prop}
    (hstep : ∀ s as tr a t es, I s as tr → G s a → step s a = some (t,es) →
      I t (as ++ [a]) (tr ++ es))
    {as bs : List α} {s u : σ} {tr es : List ε} (h0 : I s as tr) (hG : EveryStep step G s bs)
    (hr : run step s bs = some (u,es)) : I u (as ++ bs) (tr ++ es) := by
  induction bs generalizing s as tr es with
  | nil =>
    simp only [run_nil,Option.some.injEq,Prod.mk.injEq] at hr
    obtain ⟨rfl,rfl⟩ := hr
    simpa using h0
  | cons a bs ih =>
    obtain ⟨t,fs,gs,hs,hrest,rfl⟩ := run_cons_iff.mp hr
    have h1 := hstep s as tr a t fs h0 hG.head hs
    simpa using ih h1 (hG.tail hs) hrest

theorem invariant_of_everyStep {step : StepFn σ α ε} {G : σ → α → Prop}
    {I : σ → List ε → Prop}
    (hstep : ∀ s tr a t es, I s tr → G s a → step s a = some (t,es) → I t (tr ++ es))
    {as : List α} {s u : σ} {es : List ε} (h0 : I s []) (hG : EveryStep step G s as)
    (hr : run step s as = some (u,es)) : I u es :=
  @history_of_everyStep σ α ε step G (fun s _ tr => I s tr)
    (fun s _ tr a t es hI hg hs => hstep s tr a t es hI hg hs) [] as s u [] es h0 hG hr

theorem actions_of_everyStep {step : StepFn σ α ε} {G : σ → α → Prop}
    {I : σ → List α → Prop}
    (hstep : ∀ s as a t es, I s as → G s a → step s a = some (t,es) → I t (as ++ [a]))
    {as : List α} {s u : σ} {es : List ε} (h0 : I s []) (hG : EveryStep step G s as)
    (hr : run step s as = some (u,es)) : I u as :=
  @history_of_everyStep σ α ε step G (fun s as _ => I s as)
    (fun s as _ a t es hI hg hs => hstep s as a t es hI hg hs) [] as s u [] es h0 hG hr

theorem invariant {step : StepFn σ α ε} {I : σ → List ε → Prop}
    (hstep : ∀ s tr a t es, I s tr → step s a = some (t,es) → I t (tr ++ es))
    {as : List α} {s u : σ} {es : List ε} (h0 : I s [])
    (hr : run step s as = some (u,es)) : I u es :=
  invariant_of_everyStep (G := fun _ _ => True)
    (fun s tr a t es hI _ hs => hstep s tr a t es hI hs) h0 (everyStep_true step s as) hr

/-- What `obs` tells of each step of the run, in the order of the steps. -/
def observed {β : Type} (step : StepFn σ α ε) (obs : σ → α → List β) : σ → List α → List β
  | _, [] => []
  | s, a :: as =>
    match step s a with
    | none => []
    | some (t,_) => obs s a ++ observed step obs t as

theorem filterMap_eq_observed {β : Type} {step : StepFn σ α ε} {f : ε → Option β}
    {obs : σ → α → List β}
    (hstep : ∀ s a t es, step s a = some (t,es) → es.filterMap f = obs s a)
    {as : List α} {s u : σ} {tr : List ε} (hr : run step s as = some (u,tr)) :
    tr.filterMap f = observed step obs s as := by
  induction as generalizing s tr with
  | nil =>
    obtain ⟨rfl,rfl⟩ := Prod.mk.inj (Option.some.inj hr)
    rfl
  | cons a as ih =>
    obtain ⟨t,es,fs,hs,hrest,rfl⟩ := run_cons_iff.mp hr
    rw [List.filterMap_append,hstep s a t es hs,ih hrest,observed,hs]

theorem exists_run {step : StepFn σ α ε} {I : σ → List ε → Prop}
    (hstep : ∀ s tr a, I s tr → ∃ t es, step s a = some (t,es) ∧ I t (tr ++ es))
    {s : σ} {tr : List ε} (h0 : I s tr) (as : List α) :
    ∃ t es, run step s as = some (t,es) ∧ I t (tr ++ es) := by
  induction as generalizing s tr with
  | nil => exact ⟨s,[],rfl,by simpa using h0⟩
  | cons a as ih =>
    obtain ⟨t,es,hs,ht⟩ := hstep s tr a h0
    obtain ⟨u,fs,hr,hu⟩ := ih ht
    exact ⟨u,es ++ fs,run_cons_iff.mpr ⟨t,es,fs,hs,hr,rfl⟩,by simpa using hu⟩

/-- Where each own step of one party lowers `rank` until `Q` holds, and no step of the
others raises it, that party takes at most `rank` steps before `Q`. -/
theorem bounded_progress {step : StepFn σ α ε} {G : σ → α → Prop} {P Q : σ → List ε → Prop}
    (rank : σ → List ε → Nat) (own : α → Bool)
    (hP : ∀ s tr a t es, P s tr → G s a → step s a = some (t,es) →
      Q t (tr ++ es) ∨ (P t (tr ++ es) ∧ rank t (tr ++ es) + (own a).toNat ≤ rank s tr))
    (hQ : ∀ s tr a t es, Q s tr → step s a = some (t,es) → Q t (tr ++ es))
    {as : List α} {s t : σ} {es : List ε} (tr : List ε) (h0 : Q s tr ∨ P s tr)
    (hG : EveryStep step G s as) (hr : run step s as = some (t,es)) :
    Q t (tr ++ es) ∨ (P t (tr ++ es) ∧ rank t (tr ++ es) + as.countP own ≤ rank s tr) := by
  refine @history_of_everyStep σ α ε step G
    (fun u bs gs => Q u gs ∨ (P u gs ∧ rank u gs + bs.countP own ≤ rank s tr))
    ?_ [] as s t tr es (h0.imp_right fun h => ⟨h,by simp⟩) hG hr
  rintro u bs gs a v fs (h | ⟨h,hle⟩) hg hs
  · exact .inl (hQ u gs a v fs h hs)
  · rcases hP u gs a v fs h hg hs with hq | ⟨hp,hlt⟩
    · exact .inl hq
    · refine .inr ⟨hp,?_⟩
      have hown : [a].countP own = (own a).toNat := by cases ha : own a <;> simp [ha]
      rw [List.countP_append,hown]
      omega

/-- Where `step₁` can follow each step of a run of `step₂` and keep the two related, it
follows the run; the guard on a step is a fact about the whole list of actions. -/
theorem lockstep {τ β δ : Type} {step₁ : StepFn σ α ε} {step₂ : StepFn τ β δ} {f : α → β}
    {R : σ → τ → List α → List ε → Prop} {s₀ : σ} {all : List α}
    (hstep : ∀ pre a post s t es t' ds, all = pre ++ a :: post →
      run step₁ s₀ pre = some (s,es) → R s t pre es → step₂ t (f a) = some (t',ds) →
        ∃ s' fs, step₁ s a = some (s',fs) ∧ R s' t' (pre ++ [a]) (es ++ fs))
    {t₀ t' : τ} {ds : List δ} (h0 : R s₀ t₀ [] [])
    (hr : run step₂ t₀ (all.map f) = some (t',ds)) :
    ∃ s' es, run step₁ s₀ all = some (s',es) ∧ R s' t' all es := by
  have hrest : ∀ (post pre : List α) (s : σ) (t : τ) (es : List ε) (ds : List δ),
      all = pre ++ post → run step₁ s₀ pre = some (s,es) → R s t pre es →
        run step₂ t (post.map f) = some (t',ds) →
          ∃ s' es', run step₁ s₀ all = some (s',es') ∧ R s' t' all es' := by
    intro post
    induction post with
    | nil =>
      intro pre s t es ds heq hrun hR hr
      rw [List.append_nil] at heq
      simp only [List.map_nil,run_nil,Option.some.injEq,Prod.mk.injEq] at hr
      obtain ⟨rfl,rfl⟩ := hr
      exact ⟨s,es,heq ▸ hrun,heq ▸ hR⟩
    | cons a post ih =>
      intro pre s t es ds heq hrun hR hr
      rw [List.map_cons] at hr
      obtain ⟨u,ds₁,ds₂,hs,hrest,rfl⟩ := run_cons_iff.mp hr
      obtain ⟨s',fs,hs',hR'⟩ := hstep pre a post s t es u ds₁ heq hrun hR hs
      have hrun' : run step₁ s₀ (pre ++ [a]) = some (s',es ++ fs) :=
        run_append_iff.mpr ⟨s,es,fs,hrun,run_singleton_iff.mpr hs',rfl⟩
      exact ih (pre ++ [a]) s' u (es ++ fs) ds₂ (by simp [heq]) hrun' hR' hrest
  exact hrest all [] s₀ t₀ [] ds rfl rfl h0 hr

/-- Some step of the run from `s₀` met `starts`, and all since then `keeps`. -/
inductive Since (step : StepFn σ α ε) (starts keeps : σ → α → List ε → Prop) (s₀ : σ) :
    List α → σ → Prop where
  | start {as : List α} {s t : σ} {a : α} {tr es : List ε} (hr : run step s₀ as = some (s,tr))
      (hs : step s a = some (t,es)) (h : starts s a es) : Since step starts keeps s₀ (as ++ [a]) t
  | keep {as : List α} {s t : σ} {a : α} {es : List ε} (hsince : Since step starts keeps s₀ as s)
      (hs : step s a = some (t,es)) (h : keeps s a es) : Since step starts keeps s₀ (as ++ [a]) t

theorem flag_iff_since {step : StepFn σ α ε} {starts keeps : σ → α → List ε → Prop}
    {flag : σ → Prop} {s₀ : σ} (h0 : ¬ flag s₀)
    (hset : ∀ s a t es, step s a = some (t,es) → starts s a es → flag t)
    (hkeep : ∀ s a t es, step s a = some (t,es) → keeps s a es → flag s → flag t)
    (hclear : ∀ s a t es, step s a = some (t,es) → flag t →
      starts s a es ∨ (keeps s a es ∧ flag s))
    {as : List α} {s : σ} {tr : List ε} (hr : run step s₀ as = some (s,tr)) :
    flag s ↔ Since step starts keeps s₀ as s := by
  constructor
  · have hI : run step s₀ as = some (s,tr) ∧ (flag s → Since step starts keeps s₀ as s) := by
      refine @history_of_everyStep σ α ε step (fun _ _ => True)
        (fun s as tr => run step s₀ as = some (s,tr) ∧ (flag s → Since step starts keeps s₀ as s))
        ?_ [] as s₀ s [] tr ⟨rfl,fun h => absurd h h0⟩ (everyStep_true step s₀ as) hr
      intro s as tr a t es hI _ hs
      refine ⟨run_append_iff.mpr ⟨s,tr,es,hI.1,run_singleton_iff.mpr hs,rfl⟩,fun hflag => ?_⟩
      rcases hclear s a t es hs hflag with h | ⟨h,hbefore⟩
      · exact .start hI.1 hs h
      · exact .keep (hI.2 hbefore) hs h
    exact hI.2
  · intro h
    clear hr
    induction h with
    | start _ hs h => exact hset _ _ _ _ hs h
    | keep _ hs h ih => exact hkeep _ _ _ _ hs h ih

theorem append_eq_split {tr es pre post : List ε} {e : ε} (h : tr ++ es = pre ++ e :: post) :
    (∃ q, tr = pre ++ e :: q ∧ post = q ++ es) ∨ (∃ p, pre = tr ++ p ∧ es = p ++ e :: post) := by
  rcases List.append_eq_append_iff.mp h with ⟨p,hp,hes⟩ | ⟨q,htr,hq⟩
  · exact .inr ⟨p,hp,hes⟩
  · cases q with
    | nil => exact .inr ⟨[],by simpa using htr.symm,by simpa using hq.symm⟩
    | cons x q =>
      simp only [List.cons_append,List.cons.injEq] at hq
      obtain ⟨rfl,rfl⟩ := hq
      exact .inl ⟨q,htr,rfl⟩

/-- To prove `P before e after state` for every event of every run, prove it when
the event is made, and that a later step keeps it. `J` is known along the run. -/
theorem forall_events {step : StepFn σ α ε} {G : σ → α → Prop} {J : σ → List ε → Prop}
    {P : List ε → ε → List ε → σ → Prop}
    (hJ : ∀ s tr a t es, J s tr → G s a → step s a = some (t,es) → J t (tr ++ es))
    (made : ∀ s tr a t es p e post, J s tr → G s a → step s a = some (t,es) →
      es = p ++ e :: post → P (tr ++ p) e post t)
    (kept : ∀ s a t es pre e post, J s (pre ++ e :: post) → G s a → step s a = some (t,es) →
      P pre e post s → P pre e (post ++ es) t)
    {as : List α} {s u : σ} {tr : List ε} (h0 : J s []) (hG : EveryStep step G s as)
    (hr : run step s as = some (u,tr)) {pre post : List ε} {e : ε}
    (heq : tr = pre ++ e :: post) : P pre e post u := by
  let I : σ → List ε → Prop := fun s tr =>
    J s tr ∧ ∀ pre e post, tr = pre ++ e :: post → P pre e post s
  have hI0 : I s [] := ⟨h0,by simp⟩
  have hI : ∀ s tr a t es, I s tr → G s a → step s a = some (t,es) → I t (tr ++ es) := by
    intro s tr a t es hI hg hs
    refine ⟨hJ s tr a t es hI.1 hg hs,?_⟩
    intro pre e post hsplit
    rcases append_eq_split hsplit with ⟨q,rfl,rfl⟩ | ⟨p,rfl,hes⟩
    · exact kept s a t es pre e q hI.1 hg hs (hI.2 pre e q rfl)
    · exact made s tr a t es p e post hI.1 hg hs hes
  exact (invariant_of_everyStep hI hI0 hG hr).2 pre e post heq

end RunTrace
