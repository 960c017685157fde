import Ceclircd.RunTrace
import Mathlib.Logic.Function.Basic
set_option autoImplicit false

/-! A mutex with one condition variable: any number of producers that add to what is
shared, and one consumer that works it off and waits. -/

namespace Monitor
open RunTrace

/-- The code of the two sides. `push` is a producer's section, after which it signals if
`accepts` held; `turn` is one turn of the consumer's loop under the mutex, `finish` what it
writes before it waits, and `outside` what it does without the mutex. -/
structure Program (σ κ α ε : Type) where
  accepts : σ → Bool
  push : σ → κ → σ × List ε
  turn : σ → Option (σ × List ε)
  finish : σ → σ
  enters : σ → Bool
  outside : σ → α → Option (σ × List ε)

/-- Where the consumer stands. `blocked` and `woken` are inside the wait. -/
inductive Phase where
  | outside
  | draining
  | blocked
  | woken
  | leaving
  deriving DecidableEq, Repr

inductive ProducerPc (κ : Type) where
  | idle
  | entering (k : κ)
  | testing (k : κ)
  | signalling
  | leaving
  deriving DecidableEq, Repr

def ProducerPc.inside {κ : Type} : ProducerPc κ → Bool
  | .testing _ | .signalling | .leaving => true
  | .idle | .entering _ => false

inductive Holder (T : Type) where
  | consumer
  | producer (t : T)
  deriving DecidableEq, Repr

structure State (σ κ T : Type) where
  shared : σ
  owner : Option (Holder T)
  phase : Phase
  producers : T → ProducerPc κ

/-- `wake` is a timeout, or a wait that returns for no reason. -/
inductive Action (κ α T : Type) where
  | call (t : T) (k : κ)
  | producer (t : T)
  | consumer
  | outside (a : α)
  | wake

section
variable {σ κ α ε T : Type} {P : Program σ κ α ε} {s t : State σ κ T} {es : List ε}

def initial (s : σ) : State σ κ T := ⟨s,none,.outside,fun _ => .idle⟩

/-! Who is inside. -/

def Phase.inside : Phase → Bool
  | .draining | .leaving => true
  | .outside | .blocked | .woken => false

structure Exclusive (s : State σ κ T) : Prop where
  consumer : s.owner = some .consumer ↔ s.phase.inside = true
  producer : ∀ t, s.owner = some (.producer t) ↔ (s.producers t).inside = true

theorem initial_exclusive (s : σ) : Exclusive (initial s : State σ κ T) :=
  ⟨by simp [initial,Phase.inside],by simp [initial,ProducerPc.inside]⟩

theorem Exclusive.owner_none (h : Exclusive s) (ho : s.owner = none) :
    s.phase.inside = false ∧ ∀ t, (s.producers t).inside = false := by
  constructor
  · have hc := h.consumer
    rw [ho] at hc
    simpa using hc
  · intro t
    have hp := h.producer t
    rw [ho] at hp
    simpa using hp

theorem Exclusive.producer_outside (h : Exclusive s)
    (hc : s.phase.inside = true) (t : T) : (s.producers t).inside = false := by
  have ho := h.consumer.mpr hc
  have hp := h.producer t
  rw [ho] at hp
  simpa using hp

theorem Exclusive.consumer_outside (h : Exclusive s) {t : T}
    (ht : (s.producers t).inside = true) : s.phase.inside = false := by
  have ho := (h.producer t).mpr ht
  have hc := h.consumer
  rw [ho] at hc
  simpa using hc

theorem Exclusive.consumer_moves {s : State σ κ T} (hp : ∀ t, (s.producers t).inside = false)
    (shared : σ) (phase : Phase) :
    Exclusive ⟨shared,if phase.inside then some .consumer else none,phase,s.producers⟩ := by
  refine ⟨by cases phase <;> simp [Phase.inside],fun t => ?_⟩
  rw [hp t]
  cases phase <;> simp [Phase.inside]

/-! The same code with each section as one step. -/

inductive Turns (P : Program σ κ α ε) : σ → σ → List ε → Prop where
  | nil (s : σ) : Turns P s s []
  | cons {s t u : σ} {es fs : List ε} (h : P.turn s = some (t,es)) (hrest : Turns P t u fs) :
      Turns P s u (es ++ fs)

theorem Turns.snoc {s t u : σ} {es fs : List ε} (h : Turns P s t es)
    (hturn : P.turn t = some (u,fs)) : Turns P s u (es ++ fs) := by
  induction h with
  | nil s => simpa using Turns.cons hturn (.nil u)
  | cons hfirst _ ih => simpa using Turns.cons hfirst (ih hturn)

inductive AtomicAction (κ α : Type) where
  | push (k : κ)
  | pass
  | outside (a : α)
  deriving DecidableEq, Repr

/-- `pass` is the consumer's whole section, up to its wait. -/
def atomicStep (P : Program σ κ α ε) (pass : σ → σ × List ε) (s : σ) :
    AtomicAction κ α → Option (σ × List ε)
  | .push k => some (P.push s k)
  | .pass => if P.enters s then some (pass s) else none
  | .outside a => if P.enters s then none else P.outside s a

/-- What the sections have to keep: a producer that does not signal changes nothing, and
nobody but the consumer changes whether producers are accepted. -/
structure Lawful (P : Program σ κ α ε) (pass : σ → σ × List ε) : Prop where
  refused : ∀ s k, P.accepts s = false → (P.push s k).1 = s
  accepted : ∀ s k, P.accepts (P.push s k).1 = P.accepts s
  finished : ∀ s, P.turn s = none → P.turn (P.finish s) = none
  pass_eq : ∀ s t es, Turns P s t es → P.turn t = none → pass s = (P.finish t,es)

/-- The atomic code stands where the last section was entered; what it has not reported yet
are the turns made since. -/
inductive Follows (P : Program σ κ α ε) (pass : σ → σ × List ε) (s₀ : σ) (f : State σ κ T)
    (tr : List ε) : Prop where
  | mk {bs : List (AtomicAction κ α)} {s : σ} {done es : List ε}
      (hr : run (atomicStep P pass) s₀ bs = some (s,done)) (htr : tr = done ++ es)
      (hturns : Turns P s f.shared es) (henters : f.phase = .draining → P.enters s = true)
      (hsame : f.phase ≠ .draining → s = f.shared ∧ es = [])

theorem Follows.of_same {pass : σ → σ × List ε} {s₀ : σ} {tr : List ε}
    {bs : List (AtomicAction κ α)} (hr : run (atomicStep P pass) s₀ bs = some (s.shared,tr))
    (hp : s.phase = .draining → P.enters s.shared = true) : Follows P pass s₀ s tr :=
  ⟨hr,(List.append_nil tr).symm,.nil _,hp,fun _ => ⟨rfl,rfl⟩⟩

theorem Follows.atomic {pass : σ → σ × List ε} {s₀ : σ} {tr : List ε}
    (h : Follows P pass s₀ s tr) (hp : s.phase ≠ .draining) (b : AtomicAction κ α)
    (hb : atomicStep P pass s.shared b = some (t.shared,es))
    (ht : t.phase ≠ .draining) : Follows P pass s₀ t (tr ++ es) := by
  obtain ⟨hr,htr,_,_,hsame⟩ := h
  obtain ⟨rfl,rfl⟩ := hsame hp
  rw [List.append_nil] at htr
  subst htr
  exact .of_same (run_append_iff.mpr ⟨_,_,_,hr,run_singleton_iff.mpr hb,rfl⟩)
    fun hd => absurd hd ht

theorem Follows.stutter {pass : σ → σ × List ε} {s₀ : σ} {tr : List ε}
    (h : Follows P pass s₀ s tr) (hshared : t.shared = s.shared)
    (hp : t.phase = .draining ↔ s.phase = .draining) : Follows P pass s₀ t tr := by
  obtain ⟨hr,htr,hturns,henters,hsame⟩ := h
  refine ⟨hr,htr,by rw [hshared]; exact hturns,fun hd => henters (hp.mp hd),fun hd => ?_⟩
  rw [hshared]
  exact hsame fun hs => hd (hp.mpr hs)

/-! The wait. -/

/-- Nobody waits for what is there already, unless its signal is still to come; and where
producers are not accepted there is none to come. -/
structure Watched (P : Program σ κ α ε) (s : State σ κ T) : Prop where
  exclusive : Exclusive s
  awake : s.phase = .blocked → P.turn s.shared = none ∨ ∃ t, s.producers t = .signalling
  unsignalled : s.phase = .blocked → P.accepts s.shared = false →
    ∀ t, s.producers t ≠ .signalling

theorem Watched.of_not_blocked (hx : Exclusive s) (hp : s.phase ≠ .blocked) : Watched P s :=
  ⟨hx,fun h => absurd h hp,fun h => absurd h hp⟩

/-- No wake-up is lost: with the mutex free, what a blocked consumer waits for is not there. -/
theorem Watched.nothing_to_do (h : Watched P s) (hp : s.phase = .blocked)
    (ho : s.owner = none) : P.turn s.shared = none := by
  rcases h.awake hp with hturn | ⟨n,hn⟩
  · exact hturn
  · have hout := (h.exclusive.owner_none ho).2 n
    rw [hn] at hout
    simp [ProducerPc.inside] at hout

/-! The statements. -/

variable [DecidableEq T]

namespace State

def setProducer (s : State σ κ T) (t : T) (pc : ProducerPc κ) : State σ κ T :=
  { s with producers := Function.update s.producers t pc }

def producerStep (P : Program σ κ α ε) (s : State σ κ T) (t : T) :
    Option (State σ κ T × List ε) :=
  match s.producers t with
  | .idle => none
  | .entering k =>
    if s.owner.isNone then
      some ({ s.setProducer t (.testing k) with owner := some (.producer t) },[])
    else none
  | .testing k =>
    let (shared,es) := P.push s.shared k
    some ({ s.setProducer t (if P.accepts s.shared then .signalling else .leaving) with
      shared := shared },es)
  | .signalling =>
    some ({ s.setProducer t .leaving with
      phase := if s.phase = .blocked then .woken else s.phase },[])
  | .leaving => some ({ s.setProducer t .idle with owner := none },[])

def consumerStep (P : Program σ κ α ε) (s : State σ κ T) : Option (State σ κ T × List ε) :=
  match s.phase with
  | .outside =>
    if P.enters s.shared && s.owner.isNone then
      some ({ s with owner := some .consumer, phase := .draining },[])
    else none
  | .draining =>
    match P.turn s.shared with
    | some (shared,es) => some ({ s with shared := shared },es)
    | none => some ({ s with shared := P.finish s.shared, owner := none, phase := .blocked },[])
  | .blocked => none
  | .woken =>
    if s.owner.isNone then some ({ s with owner := some .consumer, phase := .leaving },[])
    else none
  | .leaving => some ({ s with owner := none, phase := .outside },[])

def step (P : Program σ κ α ε) (s : State σ κ T) :
    Action κ α T → Option (State σ κ T × List ε)
  | .call t k =>
    match s.producers t with
    | .idle => some (s.setProducer t (.entering k),[])
    | _ => none
  | .producer t => s.producerStep P t
  | .consumer => s.consumerStep P
  | .outside a =>
    if s.phase = .outside ∧ P.enters s.shared = false then
      (P.outside s.shared a).map fun r => ({ s with shared := r.1 },r.2)
    else none
  | .wake => if s.phase = .blocked then some ({ s with phase := .woken },[]) else none

end State

def State.pushCalls (s : State σ κ T) : Action κ α T → List κ
  | .producer t =>
    match s.producers t with
    | .testing k => [k]
    | .idle | .entering _ | .signalling | .leaving => []
  | .call _ _ | .consumer | .outside _ | .wake => []

/-! What a step can do, said once. -/

inductive Move (P : Program σ κ α ε) (s : State σ κ T) :
    Action κ α T → State σ κ T → List ε → Prop where
  | call (t : T) (k : κ) (h : s.producers t = .idle) :
      Move P s (.call t k) (s.setProducer t (.entering k)) []
  | enter (t : T) (k : κ) (h : s.producers t = .entering k) (ho : s.owner = none) :
      Move P s (.producer t) { s.setProducer t (.testing k) with owner := some (.producer t) } []
  | push (t : T) (k : κ) (h : s.producers t = .testing k) :
      Move P s (.producer t) { s.setProducer t (if P.accepts s.shared then .signalling else .leaving) with
        shared := (P.push s.shared k).1 } (P.push s.shared k).2
  | signal (t : T) (h : s.producers t = .signalling) :
      Move P s (.producer t) { s.setProducer t .leaving with
        phase := if s.phase = .blocked then .woken else s.phase } []
  | leave (t : T) (h : s.producers t = .leaving) :
      Move P s (.producer t) { s.setProducer t .idle with owner := none } []
  | lock (hp : s.phase = .outside) (he : P.enters s.shared = true) (ho : s.owner = none) :
      Move P s .consumer { s with owner := some .consumer, phase := .draining } []
  | turn (hp : s.phase = .draining) (shared : σ) (es : List ε)
      (h : P.turn s.shared = some (shared,es)) : Move P s .consumer { s with shared := shared } es
  | wait (hp : s.phase = .draining) (h : P.turn s.shared = none) :
      Move P s .consumer { s with shared := P.finish s.shared, owner := none, phase := .blocked } []
  | relock (hp : s.phase = .woken) (ho : s.owner = none) :
      Move P s .consumer { s with owner := some .consumer, phase := .leaving } []
  | unlock (hp : s.phase = .leaving) : Move P s .consumer { s with owner := none, phase := .outside } []
  | outside (a : α) (hp : s.phase = .outside) (he : P.enters s.shared = false) (shared : σ)
      (es : List ε) (h : P.outside s.shared a = some (shared,es)) :
      Move P s (.outside a) { s with shared := shared } es
  | wake (hp : s.phase = .blocked) : Move P s .wake { s with phase := .woken } []

theorem step_move {P : Program σ κ α ε} {s t : State σ κ T} {a : Action κ α T} {es : List ε}
    (h : s.step P a = some (t,es)) : Move P s a t es := by
  cases a with
  | call n k =>
    simp only [State.step] at h
    split at h
    · next hn =>
      obtain ⟨rfl,rfl⟩ := Prod.mk.inj (Option.some.inj h)
      exact .call n k hn
    · simp at h
  | producer n =>
    simp only [State.step,State.producerStep] at h
    split at h
    · simp at h
    · next k hn =>
      split at h
      · next ho =>
        obtain ⟨rfl,rfl⟩ := Prod.mk.inj (Option.some.inj h)
        exact .enter n k hn (Option.isNone_iff_eq_none.mp ho)
      · simp at h
    · next k hn =>
      obtain ⟨rfl,rfl⟩ := Prod.mk.inj (Option.some.inj h)
      exact .push n k hn
    · next hn =>
      obtain ⟨rfl,rfl⟩ := Prod.mk.inj (Option.some.inj h)
      exact .signal n hn
    · next hn =>
      obtain ⟨rfl,rfl⟩ := Prod.mk.inj (Option.some.inj h)
      exact .leave n hn
  | consumer =>
    simp only [State.step,State.consumerStep] at h
    split at h
    · next hp =>
      split at h
      · next hc =>
        rw [Bool.and_eq_true,Option.isNone_iff_eq_none] at hc
        obtain ⟨rfl,rfl⟩ := Prod.mk.inj (Option.some.inj h)
        exact .lock hp hc.1 hc.2
      · simp at h
    · next hp =>
      split at h
      · next shared fs ht =>
        obtain ⟨rfl,rfl⟩ := Prod.mk.inj (Option.some.inj h)
        exact .turn hp shared fs ht
      · next ht =>
        obtain ⟨rfl,rfl⟩ := Prod.mk.inj (Option.some.inj h)
        exact .wait hp ht
    · simp at h
    · next hp =>
      split at h
      · next ho =>
        obtain ⟨rfl,rfl⟩ := Prod.mk.inj (Option.some.inj h)
        exact .relock hp (Option.isNone_iff_eq_none.mp ho)
      · simp at h
    · next hp =>
      obtain ⟨rfl,rfl⟩ := Prod.mk.inj (Option.some.inj h)
      exact .unlock hp
  | outside a =>
    simp only [State.step] at h
    split at h
    · next hc =>
      obtain ⟨⟨shared,fs⟩,hr,heq⟩ := Option.map_eq_some_iff.mp h
      obtain ⟨rfl,rfl⟩ := Prod.mk.inj heq
      exact .outside a hc.1 hc.2 shared fs hr
    · simp at h
  | wake =>
    simp only [State.step] at h
    split at h
    · next hp =>
      obtain ⟨rfl,rfl⟩ := Prod.mk.inj (Option.some.inj h)
      exact .wake hp
    · simp at h

theorem Exclusive.setProducer (h : Exclusive s) {t : T} {pc : ProducerPc κ}
    (hpc : pc.inside = (s.producers t).inside) (shared : σ) {phase : Phase}
    (hphase : phase.inside = s.phase.inside) :
    Exclusive ⟨shared,s.owner,phase,Function.update s.producers t pc⟩ := by
  refine ⟨by rw [hphase]; exact h.consumer,fun u => ?_⟩
  by_cases hu : u = t
  · subst hu
    simpa [hpc] using h.producer u
  · simpa [hu] using h.producer u

theorem Exclusive.enter (h : Exclusive s) (ho : s.owner = none) (t : T)
    (k : κ) : Exclusive { s.setProducer t (.testing k) with owner := some (.producer t) } := by
  obtain ⟨hc,hp⟩ := h.owner_none ho
  refine ⟨by simp [State.setProducer,hc],fun u => ?_⟩
  by_cases hu : u = t
  · subst hu
    simp [State.setProducer,ProducerPc.inside]
  · simp [State.setProducer,hu,hp,Ne.symm hu]

theorem Exclusive.leave (h : Exclusive s) {t : T}
    (ht : (s.producers t).inside = true) :
    Exclusive { s.setProducer t .idle with owner := none } := by
  have hc := h.consumer_outside ht
  refine ⟨by simp [State.setProducer,hc],fun u => ?_⟩
  by_cases hu : u = t
  · subst hu
    simp [State.setProducer,ProducerPc.inside]
  · have hother : (s.producers u).inside = false := by
      have hp := h.producer u
      rw [(h.producer t).mpr ht] at hp
      simpa [Ne.symm hu] using hp
    simp [State.setProducer,hu,hother]

theorem Exclusive.move {a : Action κ α T} (h : Exclusive s) (hm : Move P s a t es) : Exclusive t := by
  cases hm with
  | call n k hn => exact h.setProducer (by rw [hn]; rfl) s.shared rfl
  | enter n k hn ho => exact h.enter ho n k
  | push n k hn =>
    refine h.setProducer ?_ _ rfl
    rw [hn]
    split <;> rfl
  | signal n hn =>
    refine h.setProducer (by rw [hn]; rfl) s.shared ?_
    split
    · next hp => rw [hp]; rfl
    · rfl
  | leave n hn => exact h.leave (by rw [hn]; rfl)
  | lock hp he ho => exact Exclusive.consumer_moves (h.owner_none ho).2 s.shared .draining
  | turn hp shared es hturn => exact ⟨h.consumer,h.producer⟩
  | wait hp hturn =>
    exact Exclusive.consumer_moves (h.producer_outside (by rw [hp]; rfl)) _ .blocked
  | relock hp ho => exact Exclusive.consumer_moves (h.owner_none ho).2 s.shared .leaving
  | unlock hp =>
    exact Exclusive.consumer_moves (h.producer_outside (by rw [hp]; rfl)) s.shared .outside
  | outside a hp he shared es hout => exact ⟨h.consumer,h.producer⟩
  | wake hp => exact ⟨by simpa [hp,Phase.inside] using h.consumer,h.producer⟩

theorem Follows.move {pass : σ → σ × List ε} (hP : Lawful P pass) {s₀ : σ} {tr : List ε}
    {a : Action κ α T}
    (h : Follows P pass s₀ s tr) (hx : Exclusive s) (hm : Move P s a t es) :
    Follows P pass s₀ t (tr ++ es) := by
  cases hm with
  | call n k hn =>
    rw [List.append_nil]
    exact h.stutter rfl Iff.rfl
  | enter n k hn ho =>
    rw [List.append_nil]
    exact h.stutter rfl Iff.rfl
  | push n k hn =>
    have hp : s.phase ≠ .draining := by
      intro hd
      have hout := hx.consumer_outside (t := n) (by rw [hn]; rfl)
      simp [hd,Phase.inside] at hout
    exact h.atomic hp (.push k) rfl hp
  | signal n hn =>
    rw [List.append_nil]
    refine h.stutter rfl ?_
    split
    · next hb => simp [hb]
    · rfl
  | leave n hn =>
    rw [List.append_nil]
    exact h.stutter rfl Iff.rfl
  | lock hp he ho =>
    obtain ⟨hr,htr,_,_,hsame⟩ := h
    obtain ⟨rfl,rfl⟩ := hsame (by simp [hp])
    rw [List.append_nil] at htr ⊢
    subst htr
    exact .of_same hr fun _ => he
  | turn hp shared es hturn =>
    obtain ⟨hr,htr,hturns,henters,_⟩ := h
    refine ⟨hr,?_,hturns.snoc hturn,henters,fun hd => absurd hp hd⟩
    rw [htr,List.append_assoc]
  | wait hp hturn =>
    obtain @⟨bs,s',done,es,hr,htr,hturns,henters,_⟩ := h
    have hpass : atomicStep P pass s' .pass = some (P.finish s.shared,es) := by
      rw [atomicStep,if_pos (henters hp),hP.pass_eq _ _ _ hturns hturn]
    rw [List.append_nil]
    exact .of_same (run_append_iff.mpr ⟨_,_,_,hr,run_singleton_iff.mpr hpass,htr⟩) (by simp)
  | relock hp ho =>
    rw [List.append_nil]
    exact h.stutter rfl (by simp [hp])
  | unlock hp =>
    rw [List.append_nil]
    exact h.stutter rfl (by simp [hp])
  | outside a hp he shared es hout =>
    refine h.atomic (by simp [hp]) (.outside a) ?_ (by simp [hp])
    simp [atomicStep,he,hout]
  | wake hp =>
    rw [List.append_nil]
    exact h.stutter rfl (by simp [hp])

/-- Whatever the threads do one after the other, the sections might as well have been one
step each. -/
theorem run_follows {pass : σ → σ × List ε} (hP : Lawful P pass) {s₀ : σ}
    {as : List (Action κ α T)} {f : State σ κ T} {tr : List ε}
    (hr : run (State.step P) (initial s₀) as = some (f,tr)) :
    Exclusive f ∧ Follows P pass s₀ f tr := by
  refine invariant (I := fun f tr => Exclusive f ∧ Follows P pass s₀ f tr) ?_ ?_ hr
  · intro s tr a t es h hs
    exact ⟨h.1.move (step_move hs),h.2.move hP h.1 (step_move hs)⟩
  · exact ⟨initial_exclusive s₀,.of_same (run_nil _ _) (by simp [initial])⟩

theorem Watched.setProducer (h : Watched P s) {n : T} {pc : ProducerPc κ}
    (hfrom : s.producers n ≠ .signalling) (hto : pc ≠ .signalling)
    (hx : Exclusive t) (hshared : t.shared = s.shared) (hphase : t.phase = s.phase)
    (hproducers : t.producers = Function.update s.producers n pc) : Watched P t := by
  refine ⟨hx,fun hp => ?_,fun hp ha u => ?_⟩
  · rw [hshared,hproducers]
    refine (h.awake (hphase ▸ hp)).imp_right fun ⟨u,hu⟩ => ⟨u,?_⟩
    rwa [Function.update_of_ne]
    rintro rfl
    exact hfrom hu
  · rw [hproducers]
    by_cases hu : u = n
    · subst hu
      simpa using hto
    · rw [Function.update_of_ne hu]
      exact h.unsignalled (hphase ▸ hp) (hshared ▸ ha) u

theorem Watched.push {pass : σ → σ × List ε} (hP : Lawful P pass) (h : Watched P s) {n : T}
    {k : κ} (hn : s.producers n = .testing k) (hx : Exclusive t)
    (hshared : t.shared = (P.push s.shared k).1) (hphase : t.phase = s.phase)
    (hproducers : t.producers =
      Function.update s.producers n (if P.accepts s.shared then .signalling else .leaving)) :
    Watched P t := by
  cases ha : P.accepts s.shared with
  | false =>
    rw [ha] at hproducers
    have hto : (ProducerPc.leaving : ProducerPc κ) ≠ .signalling := by simp
    exact h.setProducer (by simp [hn]) hto hx (hshared.trans (hP.refused _ _ ha)) hphase hproducers
  | true =>
    refine ⟨hx,fun _ => .inr ⟨n,by simp [hproducers,ha]⟩,fun _ hno => ?_⟩
    rw [hshared,hP.accepted,ha] at hno
    simp at hno

theorem Watched.move {pass : σ → σ × List ε} (hP : Lawful P pass) {a : Action κ α T}
    (h : Watched P s) (hm : Move P s a t es) : Watched P t := by
  have hx := h.exclusive.move hm
  cases hm with
  | call n k hn => exact h.setProducer (by simp [hn]) (by simp) hx rfl rfl rfl
  | enter n k hn ho => exact h.setProducer (by simp [hn]) (by simp) hx rfl rfl rfl
  | push n k hn => exact h.push hP hn hx rfl rfl rfl
  | signal n hn =>
    refine .of_not_blocked hx ?_
    dsimp only
    split
    · simp
    · next hp => exact hp
  | leave n hn => exact h.setProducer (by simp [hn]) (by simp) hx rfl rfl rfl
  | wait hp hturn =>
    have hout := h.exclusive.producer_outside (by rw [hp]; rfl)
    refine ⟨hx,fun _ => .inl (hP.finished _ hturn),fun _ _ u hu => ?_⟩
    have hu' := hout u
    rw [show s.producers u = .signalling from hu] at hu'
    simp [ProducerPc.inside] at hu'
  | turn hp => exact .of_not_blocked hx (by simp [hp])
  | outside a hp => exact .of_not_blocked hx (by simp [hp])
  | lock | relock | unlock | wake => exact .of_not_blocked hx (by simp)

theorem run_watched {pass : σ → σ × List ε} (hP : Lawful P pass) {s₀ : σ}
    {as : List (Action κ α T)} {f : State σ κ T} {tr : List ε}
    (hr : run (State.step P) (initial s₀) as = some (f,tr)) : Watched P f :=
  invariant (I := fun f _ => Watched P f) (fun _ _ _ _ _ h hs => h.move hP (step_move hs))
    (.of_not_blocked (initial_exclusive s₀) (by simp [initial])) hr

/-- While the consumer drains, the others get no further than up to the mutex. -/
theorem Exclusive.others_wait {a : Action κ α T} (h : Exclusive s) (hp : s.phase = .draining)
    (ha : a ≠ .consumer) (hm : Move P s a t es) :
    t.phase = .draining ∧ t.shared = s.shared ∧ es = [] := by
  have hinside : s.phase.inside = true := by rw [hp]; rfl
  have hout := h.producer_outside hinside
  cases hm with
  | call => exact ⟨hp,rfl,rfl⟩
  | enter n k hn ho => simp [h.consumer.mpr hinside] at ho
  | push n k hn | signal n hn | leave n hn =>
    have hn' := hout n
    simp [hn,ProducerPc.inside] at hn'
  | lock | turn | wait | relock | unlock => exact absurd rfl ha
  | outside a hp' | wake hp' => simp [hp] at hp'

/-- A consumer that waits where producers are no longer accepted is not woken by them: none
of them gets to signal. -/
theorem Watched.stays_blocked {pass : σ → σ × List ε} (hP : Lawful P pass) (h : Watched P s)
    (hp : s.phase = .blocked) (ha : P.accepts s.shared = false) {as : List (Action κ α T)}
    (has : ∀ a ∈ as, a ≠ .wake) {tr : List ε} (hr : run (State.step P) s as = some (t,tr)) :
    t.phase = .blocked ∧ t.shared = s.shared ∧ (∀ n, t.producers n ≠ .signalling) ∧
      ∀ e ∈ tr, ∃ k, e ∈ (P.push s.shared k).2 := by
  have hstep : ∀ (u : State σ κ T) (gs : List ε) (a : Action κ α T) (v : State σ κ T)
      (es : List ε), (Watched P u ∧ u.phase = .blocked ∧ u.shared = s.shared ∧
        ∀ e ∈ gs, ∃ k, e ∈ (P.push s.shared k).2) → a ≠ .wake → u.step P a = some (v,es) →
      Watched P v ∧ v.phase = .blocked ∧ v.shared = s.shared ∧
        ∀ e ∈ gs ++ es, ∃ k, e ∈ (P.push s.shared k).2 := by
    rintro u gs a v es ⟨hw,hblocked,hsame,hgs⟩ hawake hs
    have hm := step_move hs
    refine ⟨hw.move hP hm,?_⟩
    cases hm with
    | push n k hn =>
      refine ⟨hblocked,(hP.refused _ _ (hsame ▸ ha)).trans hsame,fun e he => ?_⟩
      rcases List.mem_append.mp he with he | he
      · exact hgs e he
      · exact ⟨k,hsame ▸ he⟩
    | signal n hn => exact absurd hn (hw.unsignalled hblocked (hsame ▸ ha) n)
    | wake => exact absurd rfl hawake
    | lock hp' | turn hp' | wait hp' | relock hp' | unlock hp' => simp [hblocked] at hp'
    | outside a hp' => simp [hblocked] at hp'
    | call | enter | leave => exact ⟨hblocked,hsame,by simpa using hgs⟩
  obtain ⟨hw,hblocked,hsame,htr⟩ := invariant_of_everyStep (G := fun _ a => a ≠ .wake)
    (I := fun u gs => Watched P u ∧ u.phase = .blocked ∧ u.shared = s.shared ∧
      ∀ e ∈ gs, ∃ k, e ∈ (P.push s.shared k).2)
    hstep ⟨h,hp,rfl,by simp⟩ (everyStep_of_forall s has) hr
  exact ⟨hblocked,hsame,hw.unsignalled hblocked (hsame ▸ ha),htr⟩

end

end Monitor
