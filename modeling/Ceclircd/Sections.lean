import Ceclircd.RunTrace
import Mathlib.Logic.Function.Basic
set_option autoImplicit false

/-! Sections of one mutex, statement by statement on any number of threads, and the order
of whole sections behind an interleaving. -/

namespace Sections
open RunTrace

/-- The code between the lock and the unlock. A statement that is not defined is an error;
otherwise it gives the one that follows, or none where the unlock follows. -/
structure Code (σ κ π ε : Type) where
  start : κ → π
  stmt : σ → π → Option (σ × Option π × List ε)

inductive Pc (κ π : Type) where
  | idle
  | entering (k : κ)
  | inside (p : π)
  | leaving
  deriving DecidableEq, Repr

def Pc.holds {κ π : Type} : Pc κ π → Bool
  | .inside _ | .leaving => true
  | .idle | .entering _ => false

def Pc.Meets {κ π : Type} (ok : π → Prop) : Pc κ π → Prop
  | .inside p => ok p
  | .idle | .entering _ | .leaving => True

instance {κ π : Type} (ok : π → Prop) [∀ p, Decidable (ok p)] : (pc : Pc κ π) →
    Decidable (pc.Meets ok)
  | .inside p => inferInstanceAs (Decidable (ok p))
  | .idle | .entering _ | .leaving => inferInstanceAs (Decidable True)

structure State (σ κ π T : Type) where
  shared : σ
  owner : Option T
  threads : T → Pc κ π

inductive Action (κ T : Type) where
  | call (t : T) (k : κ)
  | go (t : T)

inductive Report (κ ε : Type) where
  | locked (k : κ)
  | did (e : ε)
  deriving DecidableEq, Repr

section
variable {σ κ π ε T : Type} {C : Code σ κ π ε} {ok ok' : σ → π → Prop}

def initial (s : σ) : State σ κ π T := ⟨s,none,fun _ => .idle⟩

def taken (tr : List (Report κ ε)) : List κ :=
  tr.filterMap fun | .locked k => some k | .did _ => none

def done (tr : List (Report κ ε)) : List ε :=
  tr.filterMap fun | .locked _ => none | .did e => some e

theorem taken_append (tr es : List (Report κ ε)) : taken (tr ++ es) = taken tr ++ taken es :=
  List.filterMap_append

theorem done_append (tr es : List (Report κ ε)) : done (tr ++ es) = done tr ++ done es :=
  List.filterMap_append

@[simp] theorem taken_did (es : List ε) : taken (es.map (Report.did : ε → Report κ ε)) = [] := by
  simp [taken]

@[simp] theorem done_did (es : List ε) : done (es.map (Report.did : ε → Report κ ε)) = es := by
  simp [done]

/-! One section by itself. -/

inductive Path (C : Code σ κ π ε) (ok : σ → π → Prop) (s : σ) (p : π) : σ → π → List ε → Prop where
  | start : Path C ok s p s p []
  | snoc {u v : σ} {q r : π} {es fs : List ε} (h : Path C ok s p u q es) (hok : ok u q)
      (hs : C.stmt u q = some (v,some r,fs)) : Path C ok s p v r (es ++ fs)

inductive Ends (C : Code σ κ π ε) (ok : σ → π → Prop) : σ → π → σ → List ε → Prop where
  | last {s t : σ} {p : π} {es : List ε} (hok : ok s p) (hs : C.stmt s p = some (t,none,es)) :
      Ends C ok s p t es
  | next {s t u : σ} {p q : π} {es fs : List ε} (hok : ok s p)
      (hs : C.stmt s p = some (u,some q,es)) (h : Ends C ok u q t fs) : Ends C ok s p t (es ++ fs)

theorem Ends.silent {s t u : σ} {p q : π} {es : List ε} (hok : ok s p)
    (hs : C.stmt s p = some (u,some q,[])) (h : Ends C ok u q t es) : Ends C ok s p t es :=
  .next hok hs h

theorem Path.ends {s t u : σ} {p q : π} {es fs : List ε} (hp : Path C ok s p u q es)
    (h : Ends C ok u q t fs) : Ends C ok s p t (es ++ fs) := by
  induction hp generalizing fs with
  | start => exact h
  | snoc _ hok hs ih =>
    rw [List.append_assoc]
    exact ih (.next hok hs h)

/-- A section does not choose: where it ends from its start, it ends from every point that
it gets to. -/
theorem Path.rest {s t u : σ} {p q : π} {es fs : List ε} (hp : Path C ok s p u q es)
    (h : Ends C ok' s p t fs) : ∃ gs, fs = es ++ gs ∧ Ends C ok' u q t gs := by
  induction hp with
  | start => exact ⟨fs,rfl,h⟩
  | snoc _ _ hs ih =>
    obtain ⟨gs,rfl,hgs⟩ := ih
    cases hgs with
    | last _ hlast => simp [hs] at hlast
    | next _ hnext hrest =>
      rw [hs,Option.some.injEq,Prod.mk.injEq,Prod.mk.injEq,Option.some.injEq] at hnext
      obtain ⟨rfl,rfl,rfl⟩ := hnext
      exact ⟨_,by rw [List.append_assoc],hrest⟩

theorem Ends.unique {s t t' : σ} {p : π} {es es' : List ε} (h : Ends C ok s p t es)
    (h' : Ends C ok' s p t' es') : t = t' ∧ es = es' := by
  induction h generalizing es' with
  | last _ hs =>
    cases h' with
    | last _ hs' => simpa [hs] using hs'
    | next _ hs' _ => simp [hs] at hs'
  | next _ hs _ ih =>
    cases h' with
    | last _ hs' => simp [hs] at hs'
    | next _ hs' hrest =>
      rw [hs,Option.some.injEq,Prod.mk.injEq,Prod.mk.injEq,Option.some.injEq] at hs'
      obtain ⟨rfl,rfl,rfl⟩ := hs'
      obtain ⟨rfl,rfl⟩ := ih hrest
      exact ⟨rfl,rfl⟩

/-! All threads. -/

def Guarded (ok : σ → π → Prop) (s : State σ κ π T) : Action κ T → Prop
  | .call _ _ => True
  | .go t => (s.threads t).Meets (ok s.shared)

instance [∀ s p, Decidable (ok s p)] (s : State σ κ π T) : (a : Action κ T) →
    Decidable (Guarded ok s a)
  | .call _ _ => inferInstanceAs (Decidable True)
  | .go t => inferInstanceAs (Decidable ((s.threads t).Meets (ok s.shared)))

def Exclusive (s : State σ κ π T) : Prop :=
  ∀ t, s.owner = some t ↔ (s.threads t).holds = true

theorem Exclusive.owner_none {s : State σ κ π T} (h : Exclusive s) (ho : s.owner = none) (t : T) :
    (s.threads t).holds = false := by
  have ht := h t
  rw [ho] at ht
  simpa using ht

/-- What whole sections keep of what is shared, the calls made and what was reported. Each
section is to end. -/
structure Lawful (C : Code σ κ π ε) (ok : σ → π → Prop) (I : σ → List κ → List ε → Prop) :
    Prop where
  ends : ∀ s calls es k, I s calls es → ∃ t fs, Ends C (fun _ _ => True) s (C.start k) t fs
  kept : ∀ s calls es k t fs, I s calls es → Ends C ok s (C.start k) t fs →
    I t (calls ++ [k]) (es ++ fs)

/-- Whole sections, in the order of their locks, lead to what is shared, but for the last
one while a thread is in it. -/
inductive Serial (C : Code σ κ π ε) (ok : σ → π → Prop) (I : σ → List κ → List ε → Prop)
    (s : State σ κ π T) (tr : List (Report κ ε)) : Prop where
  | between (hout : ∀ t p, s.threads t ≠ .inside p) (h : I s.shared (taken tr) (done tr))
  | within (t : T) (p : π) (hin : s.threads t = .inside p) (u : σ) (calls : List κ) (k : κ)
      (es fs : List ε) (htaken : taken tr = calls ++ [k]) (hdone : done tr = es ++ fs)
      (h : I u calls es) (hpath : Path C ok u (C.start k) s.shared p fs)

variable {I : σ → List κ → List ε → Prop} {s t : State σ κ π T} {es : List (Report κ ε)}
  {tr : List (Report κ ε)}

theorem Exclusive.same {m n : T} (h : Exclusive s) (hm : (s.threads m).holds = true)
    (hn : (s.threads n).holds = true) : m = n :=
  Option.some.inj (((h m).mpr hm).symm.trans ((h n).mpr hn))

theorem Serial.stutter (h : Serial C ok I s tr) (hshared : t.shared = s.shared)
    (hsame : ∀ n p, t.threads n = .inside p ↔ s.threads n = .inside p) : Serial C ok I t tr := by
  cases h with
  | between hout h => exact .between (fun n p hn => hout n p ((hsame n p).mp hn)) (by rwa [hshared])
  | within n p hin u calls k es fs htaken hdone h hpath =>
    exact .within n p ((hsame n p).mpr hin) u calls k es fs htaken hdone h (by rwa [hshared])

theorem Serial.free (hx : Exclusive s) (h : Serial C ok I s tr) (ho : s.owner = none) :
    I s.shared (taken tr) (done tr) := by
  cases h with
  | between _ h => exact h
  | within m p hin =>
    have hfree := hx.owner_none ho m
    simp [hin,Pc.holds] at hfree

theorem Serial.inside (hx : Exclusive s) (h : Serial C ok I s tr) {n : T} {p : π}
    (hn : s.threads n = .inside p) : ∃ u calls k es fs, taken tr = calls ++ [k] ∧
      done tr = es ++ fs ∧ I u calls es ∧ Path C ok u (C.start k) s.shared p fs := by
  cases h with
  | between hout _ => exact absurd hn (hout n p)
  | within m p' hin u calls k es fs htaken hdone h hpath =>
    obtain rfl := hx.same (by rw [hin]; rfl) (by rw [hn]; rfl : (s.threads n).holds = true)
    obtain rfl : p' = p := by simpa [hn] using hin.symm
    exact ⟨u,calls,k,es,fs,htaken,hdone,h,hpath⟩

/-- Nobody gets stuck inside: from wherever a thread stands in its section, its own
statements lead to the unlock. -/
theorem Serial.ends (hC : Lawful C ok I) (hx : Exclusive s) (h : Serial C ok I s tr) {n : T}
    {p : π} (hn : s.threads n = .inside p) :
    ∃ t fs, Ends C (fun _ _ => True) s.shared p t fs := by
  obtain ⟨u,calls,k,es,fs,_,_,hI,hpath⟩ := h.inside hx hn
  obtain ⟨t,gs,hends⟩ := hC.ends u calls es k hI
  obtain ⟨rest,_,hrest⟩ := hpath.rest hends
  exact ⟨t,rest,hrest⟩

theorem Serial.completes (hC : Lawful C ok I) (hx : Exclusive s) (h : Serial C ok I s tr) {n : T}
    {p : π} (hn : s.threads n = .inside p) {v : σ} {gs : List ε}
    (hends : Ends C ok s.shared p v gs) : I v (taken tr) (done tr ++ gs) := by
  obtain ⟨u,calls,k,es,fs,htaken,hdone,hI,hpath⟩ := h.inside hx hn
  rw [htaken,hdone,List.append_assoc]
  exact hC.kept u calls es k v _ hI (hpath.ends hends)

variable [DecidableEq T]

namespace State

def setThread (s : State σ κ π T) (t : T) (pc : Pc κ π) : State σ κ π T :=
  { s with threads := Function.update s.threads t pc }

def step (C : Code σ κ π ε) (s : State σ κ π T) :
    Action κ T → Option (State σ κ π T × List (Report κ ε))
  | .call t k =>
    match s.threads t with
    | .idle => some (s.setThread t (.entering k),[])
    | _ => none
  | .go t =>
    match s.threads t with
    | .idle => none
    | .entering k =>
      if s.owner.isNone then
        some ({ s.setThread t (.inside (C.start k)) with owner := some t },[.locked k])
      else none
    | .inside p =>
      match C.stmt s.shared p with
      | none => none
      | some (shared,none,es) =>
        some ({ s.setThread t .leaving with shared := shared },es.map .did)
      | some (shared,some q,es) =>
        some ({ s.setThread t (.inside q) with shared := shared },es.map .did)
    | .leaving => some ({ s.setThread t .idle with owner := none },[])

end State

/-! What a step can do, said once. -/

inductive Move (C : Code σ κ π ε) (s : State σ κ π T) :
    Action κ T → State σ κ π T → List (Report κ ε) → Prop where
  | call (t : T) (k : κ) (h : s.threads t = .idle) :
      Move C s (.call t k) (s.setThread t (.entering k)) []
  | lock (t : T) (k : κ) (h : s.threads t = .entering k) (ho : s.owner = none) :
      Move C s (.go t) { s.setThread t (.inside (C.start k)) with owner := some t } [.locked k]
  | stmt (t : T) (p q : π) (h : s.threads t = .inside p) (shared : σ) (es : List ε)
      (hs : C.stmt s.shared p = some (shared,some q,es)) :
      Move C s (.go t) { s.setThread t (.inside q) with shared := shared } (es.map .did)
  | last (t : T) (p : π) (h : s.threads t = .inside p) (shared : σ) (es : List ε)
      (hs : C.stmt s.shared p = some (shared,none,es)) :
      Move C s (.go t) { s.setThread t .leaving with shared := shared } (es.map .did)
  | unlock (t : T) (h : s.threads t = .leaving) :
      Move C s (.go t) { s.setThread t .idle with owner := none } []

theorem step_move {s t : State σ κ π T} {a : Action κ T} {es : List (Report κ ε)}
    (h : s.step C a = some (t,es)) : Move C s a t es := by
  cases a with
  | call n k =>
    simp only [State.step] at h
    split at h
    · next hn =>
      obtain ⟨rfl,rfl⟩ := Prod.mk.inj (Option.some.inj h)
      exact .call n k hn
    · simp at h
  | go n =>
    simp only [State.step] at h
    split at h
    · simp at h
    · next k hn =>
      split at h
      · next ho =>
        obtain ⟨rfl,rfl⟩ := Prod.mk.inj (Option.some.inj h)
        exact .lock n k hn (Option.isNone_iff_eq_none.mp ho)
      · simp at h
    · next p hn =>
      split at h
      · simp at h
      · next shared ds hs =>
        obtain ⟨rfl,rfl⟩ := Prod.mk.inj (Option.some.inj h)
        exact .last n p hn shared ds hs
      · next shared q ds hs =>
        obtain ⟨rfl,rfl⟩ := Prod.mk.inj (Option.some.inj h)
        exact .stmt n p q hn shared ds hs
    · next hn =>
      obtain ⟨rfl,rfl⟩ := Prod.mk.inj (Option.some.inj h)
      exact .unlock n hn

theorem Exclusive.setThread (h : Exclusive s) {n : T} {pc : Pc κ π}
    (hpc : pc.holds = (s.threads n).holds) (shared : σ) :
    Exclusive { s.setThread n pc with shared := shared } := by
  intro m
  refine (h m).trans ?_
  rw [State.setThread]
  by_cases hm : m = n
  · simp [hm,hpc]
  · simp [hm]

theorem Exclusive.lock (h : Exclusive s) (ho : s.owner = none) (n : T) (p : π) :
    Exclusive { s.setThread n (.inside p) with owner := some n } := by
  intro m
  rw [State.setThread]
  by_cases hm : m = n
  · simp [hm,Pc.holds]
  · simp [hm,Ne.symm hm,h.owner_none ho m]

theorem Exclusive.unlock (h : Exclusive s) {n : T} (hn : (s.threads n).holds = true) :
    Exclusive { s.setThread n .idle with owner := none } := by
  intro m
  rw [State.setThread]
  by_cases hm : m = n
  · simp [hm,Pc.holds]
  · have hother := h m
    rw [(h n).mpr hn,Option.some.injEq] at hother
    have hout : (s.threads m).holds = false := by
      cases hh : (s.threads m).holds with
      | true => exact absurd (hother.mpr hh).symm hm
      | false => rfl
    simp [hm,hout]

theorem Exclusive.move {a : Action κ T} (h : Exclusive s) (hm : Move C s a t es) : Exclusive t := by
  cases hm with
  | call n k hn => exact h.setThread (by rw [hn]; rfl) s.shared
  | lock n k hn ho => exact h.lock ho n _
  | stmt n p q hn shared es hs => exact h.setThread (by rw [hn]; rfl) shared
  | last n p hn shared es hs => exact h.setThread (by rw [hn]; rfl) shared
  | unlock n hn => exact h.unlock (by rw [hn]; rfl)

theorem inside_setThread {n : T} {pc : Pc κ π} (hn : ∀ p, s.threads n ≠ .inside p)
    (hpc : ∀ p, pc ≠ .inside p) (m : T) (p : π) :
    (s.setThread n pc).threads m = .inside p ↔ s.threads m = .inside p := by
  rw [State.setThread]
  by_cases hm : m = n
  · simp [hm,hn p,hpc p]
  · simp [hm]

theorem Serial.move (hC : Lawful C ok I) {a : Action κ T} (hx : Exclusive s)
    (h : Serial C ok I s tr) (hg : Guarded ok s a) (hm : Move C s a t es) :
    Serial C ok I t (tr ++ es) := by
  cases hm with
  | call n k hn =>
    rw [List.append_nil]
    exact h.stutter rfl (inside_setThread (by simp [hn]) (by simp))
  | lock n k hn ho =>
    cases h with
    | between hout h =>
      refine .within n (C.start k) (by simp [State.setThread]) s.shared (taken tr) k (done tr) []
        ?_ ?_ h .start
      · rw [taken_append]; rfl
      · rw [done_append]; rfl
    | within m p hin =>
      have hfree := hx.owner_none ho m
      simp [hin,Pc.holds] at hfree
  | stmt n p q hn shared es hs =>
    obtain ⟨u,calls,k,es',fs,htaken,hdone,hI,hpath⟩ := h.inside hx hn
    have hok : ok s.shared p := by simpa [Guarded,Pc.Meets,hn] using hg
    refine .within n q (by simp [State.setThread]) u calls k es' (fs ++ es) ?_ ?_ hI
      (.snoc hpath hok hs)
    · rw [taken_append,taken_did,List.append_nil,htaken]
    · rw [done_append,done_did,hdone,List.append_assoc]
  | last n p hn shared es hs =>
    have hok : ok s.shared p := by simpa [Guarded,Pc.Meets,hn] using hg
    refine .between ?_ ?_
    · intro m r hm
      have hne : m ≠ n := by
        rintro rfl
        simp [State.setThread] at hm
      have hother : s.threads m = .inside r := by simpa [State.setThread,hne] using hm
      exact hne (hx.same (by rw [hother]; rfl) (by rw [hn]; rfl))
    · rw [taken_append,taken_did,List.append_nil,done_append,done_did]
      exact h.completes hC hx hn (.last hok hs)
  | unlock n hn =>
    rw [List.append_nil]
    exact h.stutter rfl (inside_setThread (by simp [hn]) (by simp))

/-- However the statements interleave, they come to whole sections one after the other, in
the order in which the mutex was taken. -/
theorem run_serial (hC : Lawful C ok I) {s₀ : σ} (h0 : I s₀ [] []) {as : List (Action κ T)}
    {tr : List (Report κ ε)} (hG : EveryStep (State.step C) (Guarded ok) (initial s₀) as)
    (hr : run (State.step C) (initial s₀) as = some (s,tr)) : Exclusive s ∧ Serial C ok I s tr := by
  refine invariant_of_everyStep (I := fun s tr => Exclusive s ∧ Serial C ok I s tr) ?_ ⟨?_,?_⟩ hG hr
  · intro s tr a t es h hg hs
    have hm := step_move hs
    exact ⟨h.1.move hm,h.2.move hC h.1 hg hm⟩
  · intro t
    simp [initial,Pc.holds]
  · exact .between (by simp [initial]) h0


end

end Sections
