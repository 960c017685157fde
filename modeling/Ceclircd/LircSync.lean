import Ceclircd.LoopSteps
import Ceclircd.LockThreads
set_option autoImplicit false

/-! The life of the mutex `lirc_sync`: initialised once, locked by every line and every new
client, and destroyed by each `mylirc.Close`. -/

namespace Ceclircd
open RunTrace LockOrder

/-- The statements of `lirc::Close` that the mutex and its users notice. -/
inductive CloseWork where
  | destroy
  | join
  deriving DecidableEq, Repr

abbrev SyncOp := Op Unit CloseWork

/-- `processevent` and `processnewclient`, as far as `lirc_sync` goes. -/
def syncSection : List SyncOp := [.lock (),.unlock ()]

def Event.syncCode : Event → List SyncOp
  | .line _ => syncSection
  | .lircClose => [.work .destroy,.work .join]
  | _ => []

/-- The loop, and where the threads stand with `lirc_sync`. `callers` are the threads that
have used it so far. -/
structure LircSync where
  loop : System
  locks : Machine Thread Unit CloseWork
  destroyed : Bool
  accepting : Bool
  callers : List Thread

/-- `legal`: done to a mutex that is initialised, and when it is destroyed, to a free one. -/
inductive SyncEvent where
  | lock (t : Thread) (legal : Bool)
  | unlock (t : Thread) (legal : Bool)
  | destroy (legal : Bool)
  deriving DecidableEq, Repr

def SyncEvent.legal : SyncEvent → Bool
  | .lock _ legal | .unlock _ legal | .destroy legal => legal

inductive SyncAction where
  | loop (ok : Bool)
  | callback (n : Nat) (c : Callback)
  | signal (sigNum : Signal)
  | newclient
  | advance (t : Thread)

namespace LircSync

def initial (c : Settings) : LircSync where
  loop := .initial c
  locks := ⟨fun _ => none,fun _ => []⟩
  destroyed := false
  accepting := false
  callers := []

def begin (s : LircSync) (t : Thread) (code : List SyncOp) : LircSync :=
  { s with locks := s.locks.prepend t code, callers := t :: s.callers }

def enter (s : LircSync) (t : Thread) (l : System) (es : List Event) : LircSync :=
  { s.begin t (es.map Event.syncCode).flatten with
    loop := l
    accepting := s.accepting || es.any (· == .lircOpen true) }

def reports (s : LircSync) (t : Thread) : SyncOp → List SyncEvent
  | .lock _ => [.lock t (!s.destroyed)]
  | .unlock _ => [.unlock t (!s.destroyed)]
  | .work .destroy => [.destroy (!s.destroyed && (s.locks.owner ()).isNone)]
  | .work .join => []

/-- The next statement of a thread. `pthread_join` waits for the accept thread. -/
def advance (s : LircSync) (t : Thread) : Option (LircSync × List SyncEvent) :=
  match s.locks.todo t,s.locks.advance t with
  | op :: _,some (locks,_) =>
    if op = .work .join ∧ s.locks.todo .accept ≠ [] then none
    else some ({ s with
      locks := locks
      destroyed := s.destroyed || op == .work .destroy
      accepting := s.accepting && op != .work .join },s.reports t op)
  | _,_ => none

def step (s : LircSync) (a : SyncAction) : Option (LircSync × List SyncEvent) :=
  if s.loop.killed then none
  else match a with
    | .loop ok =>
      if (s.locks.todo .main).isEmpty then
        (s.loop.step (.loop ok)).map fun r => (s.enter .main r.1 r.2,[])
      else none
    | .callback n c =>
      if (s.locks.todo (.callback n)).isEmpty then
        (s.loop.step (.callback c)).map fun r => (s.enter (.callback n) r.1 r.2,[])
      else none
    | .signal sigNum => (s.loop.step (.signal sigNum)).map fun r => ({ s with loop := r.1 },[])
    | .newclient =>
      if s.accepting && (s.locks.todo .accept).isEmpty then
        some (s.begin .accept syncSection,[])
      else none
    | .advance t => s.advance t

/-- After the first `mylirc.Close` no line is written, no client comes and there is no
second one; and while it destroys the mutex nobody else is in a call that uses it. -/
def quiet (s : LircSync) : SyncAction → Bool
  | .loop ok =>
    !s.destroyed || match s.loop.step (.loop ok) with
      | some (_,es) => (lines es).isEmpty
      | none => true
  | .callback _ c => !s.destroyed || (lines (s.loop.main.callback c).2).isEmpty
  | .newclient => !s.destroyed
  | .signal _ => true
  | .advance t =>
    (s.locks.todo t).head? != some (.work .destroy) ||
      (!s.destroyed && s.callers.all fun u => u == t || (s.locks.todo u).isEmpty)

end LircSync

structure LircSync.Kept (s : LircSync) : Prop where
  ordered : AllDisciplined (fun _ => 0) s.locks
  works : ∀ t ≠ .main, ∀ w, .work w ∉ s.locks.todo t
  closing : s.locks.todo .main = [.work .destroy,.work .join] ∨
    .work .destroy ∉ s.locks.todo .main
  callers : ∀ t, s.locks.todo t ≠ [] → t ∈ s.callers
  dead : s.destroyed = true → ∀ t, ∀ op ∈ s.locks.todo t, ∃ w, op = .work w

theorem disciplined_syncCode (e : Event) {ops : List SyncOp}
    (h : Disciplined (fun _ : Unit => 0) ∅ ops) :
    Disciplined (fun _ : Unit => 0) ∅ (e.syncCode ++ ops) := by
  cases e with
  | line l => exact @Disciplined.bracket Unit CloseWork Nat _ _ ∅ ops () (by simp) [] h
  | lircClose => exact h
  | _ => exact h

theorem disciplined_syncCodes (es : List Event) :
    Disciplined (fun _ : Unit => 0) ∅ (es.map Event.syncCode).flatten := by
  have h := @Disciplined.append_left Unit CloseWork Nat _ (fun _ => 0) ∅ []
    (es.map Event.syncCode) ?_ rfl
  · simpa using h
  · intro block hb ops hops
    obtain ⟨e,_,rfl⟩ := List.mem_map.mp hb
    exact disciplined_syncCode e hops

theorem work_mem_syncCodes {es : List Event} {w : CloseWork}
    (h : .work w ∈ (es.map Event.syncCode).flatten) : .lircClose ∈ es := by
  obtain ⟨code,hcode,hw⟩ := List.mem_flatten.mp h
  obtain ⟨e,he,rfl⟩ := List.mem_map.mp hcode
  cases e with
  | lircClose => exact he
  | line l => simp [Event.syncCode,syncSection] at hw
  | _ => simp [Event.syncCode] at hw

theorem mem_syncCodes_of_lines {es : List Event} (hes : lines es = []) :
    ∀ op ∈ (es.map Event.syncCode).flatten, ∃ w, op = .work w := by
  intro op hop
  obtain ⟨code,hcode,hop⟩ := List.mem_flatten.mp hop
  obtain ⟨e,he,rfl⟩ := List.mem_map.mp hcode
  cases e with
  | lircClose =>
    simp only [Event.syncCode,List.mem_cons,List.not_mem_nil,or_false] at hop
    rcases hop with rfl | rfl
    · exact ⟨_,rfl⟩
    · exact ⟨_,rfl⟩
  | line l =>
    have hmem : l ∈ lines es := List.mem_filterMap.mpr ⟨_,he,rfl⟩
    simp [hes] at hmem
  | _ => simp [Event.syncCode] at hop

namespace LircSync

theorem Kept.held_idle {s : LircSync} {t : Thread} (h : s.Kept) (hidle : s.locks.todo t = []) :
    s.locks.held t = ∅ := by
  have ht := h.ordered t
  rw [hidle] at ht
  exact ht

theorem todo_begin {s : LircSync} {t : Thread} (hidle : s.locks.todo t = [])
    (code : List SyncOp) (u : Thread) :
    (s.begin t code).locks.todo u = if u = t then code else s.locks.todo u := by
  by_cases hu : u = t
  · subst hu
    simp [begin,Machine.prepend,hidle]
  · simp [begin,Machine.prepend,hu]

theorem Kept.begin {s : LircSync} {t : Thread} {code : List SyncOp} (h : s.Kept)
    (hidle : s.locks.todo t = []) (hcode : Disciplined (fun _ : Unit => 0) ∅ code)
    (hworks : ∀ w, .work w ∈ code → t = .main ∧ code = [.work .destroy,.work .join])
    (hquiet : s.destroyed = true → ∀ op ∈ code, ∃ w, op = .work w) : (s.begin t code).Kept where
  ordered := by
    refine AllDisciplined.prepend h.ordered ?_
    rw [hidle,List.append_nil,h.held_idle hidle]
    exact hcode
  works := by
    intro u hu w
    rw [todo_begin hidle]
    split
    · next hut => exact fun hw => hu (hut.trans (hworks w hw).1)
    · exact h.works u hu w
  closing := by
    rw [todo_begin hidle]
    split
    · by_cases hmem : .work .destroy ∈ code
      · exact .inl (hworks _ hmem).2
      · exact .inr hmem
    · exact h.closing
  callers := by
    intro u hu
    by_cases hut : u = t
    · exact hut ▸ List.mem_cons_self
    · rw [todo_begin hidle,if_neg hut] at hu
      exact List.mem_cons_of_mem _ (h.callers u hu)
  dead := by
    intro hd u op hop
    rw [todo_begin hidle] at hop
    split at hop
    · exact hquiet hd op hop
    · exact h.dead hd u op hop

theorem Kept.enter {s : LircSync} {t : Thread} (h : s.Kept) (hidle : s.locks.todo t = [])
    (l : System) {es : List Event} (hclose : .lircClose ∈ es → t = .main ∧ es = [.lircClose])
    (hquiet : s.destroyed = true → lines es = []) : (s.enter t l es).Kept := by
  have hbegin : (s.begin t (es.map Event.syncCode).flatten).Kept := by
    refine h.begin hidle (disciplined_syncCodes es) (fun w hw => ?_) fun hd =>
      mem_syncCodes_of_lines (hquiet hd)
    obtain ⟨ht,rfl⟩ := hclose (work_mem_syncCodes hw)
    exact ⟨ht,rfl⟩
  exact ⟨hbegin.ordered,hbegin.works,hbegin.closing,hbegin.callers,hbegin.dead⟩

theorem advance_cases {s s' : LircSync} {t : Thread} {es : List SyncEvent}
    (hs : s.advance t = some (s',es)) : ∃ op ops locks w, s.locks.todo t = op :: ops ∧
      s.locks.advance t = some (locks,w) ∧ locks.todo = Function.update s.locks.todo t ops ∧
      s'.locks = locks ∧ s'.loop = s.loop ∧ s'.callers = s.callers ∧
      s'.destroyed = (s.destroyed || op == .work .destroy) ∧ es = s.reports t op := by
  unfold advance at hs
  split at hs
  · next op ops locks w hops hadv =>
    split at hs
    · simp at hs
    · obtain ⟨rfl,rfl⟩ := Prod.mk.inj (Option.some.inj hs)
      exact ⟨op,ops,locks,w,hops,hadv,Machine.advance_todo hops hadv,rfl,rfl,rfl,rfl,rfl⟩
  · simp at hs

/-- `pthread_mutex_destroy` is followed by `pthread_join`, whoever does it. -/
theorem Kept.destroy_next {s : LircSync} {t : Thread} {ops : List SyncOp} (h : s.Kept)
    (hops : s.locks.todo t = .work .destroy :: ops) : ops = [.work .join] := by
  have htmain : t = .main := by
    by_contra ht
    exact h.works t ht .destroy (by rw [hops]; simp)
  subst htmain
  rcases h.closing with hclose | hno
  · rw [hclose,List.cons.injEq] at hops
    exact hops.2.symm
  · exact absurd (by rw [hops]; simp) hno

theorem Kept.owner_none {s : LircSync} {t : Thread} {ops : List SyncOp} (h : s.Kept)
    (hops : s.locks.todo t = .work .destroy :: ops)
    (hothers : ∀ u ≠ t, s.locks.todo u = []) : s.locks.owner () = none := by
  have hfree : ∀ u, s.locks.held u = ∅ := by
    intro u
    by_cases hu : u = t
    · subst hu
      have hself := h.ordered u
      rw [hops,h.destroy_next hops] at hself
      exact hself
    · exact h.held_idle (hothers u hu)
  cases ho : s.locks.owner () with
  | none => rfl
  | some u =>
    have hmem : () ∈ s.locks.held u := ho
    rw [hfree u] at hmem
    exact hmem.elim

theorem quiet_advance {s : LircSync} {t : Thread} {ops : List SyncOp} (h : s.Kept)
    (hq : s.quiet (.advance t) = true) (hops : s.locks.todo t = .work .destroy :: ops) :
    s.destroyed = false ∧ ∀ u ≠ t, s.locks.todo u = [] := by
  simp only [quiet,hops,List.head?_cons,bne_self_eq_false,Bool.false_or,Bool.and_eq_true,
    Bool.not_eq_true',List.all_eq_true,Bool.or_eq_true,beq_iff_eq,List.isEmpty_iff] at hq
  refine ⟨hq.1,fun u hu => ?_⟩
  by_contra hne
  rcases hq.2 u (h.callers u hne) with heq | hnil
  · exact hu heq
  · exact hne hnil

theorem Kept.legal {s s' : LircSync} {t : Thread} {es : List SyncEvent} (h : s.Kept)
    (hq : s.quiet (.advance t) = true) (hs : s.advance t = some (s',es)) :
    ∀ e ∈ es, e.legal = true := by
  obtain ⟨op,ops,locks,w,hops,_,_,_,_,_,_,rfl⟩ := advance_cases hs
  have halive : (∀ w, op ≠ .work w) → s.destroyed = false := by
    intro hop
    by_contra hd
    obtain ⟨w,hw⟩ := h.dead (by simpa using hd) t op (by rw [hops]; simp)
    exact hop w hw
  cases op with
  | lock | unlock =>
    have hd := halive (by simp)
    simp [reports,SyncEvent.legal,hd]
  | work w =>
    cases w with
    | join => simp [reports]
    | destroy =>
      obtain ⟨hd,hothers⟩ := quiet_advance h hq hops
      simp [reports,SyncEvent.legal,hd,h.owner_none hops hothers]

theorem mem_of_advanced {s s' : LircSync} {t : Thread} {op : SyncOp} {ops : List SyncOp}
    (hops : s.locks.todo t = op :: ops)
    (htodo : s'.locks.todo = Function.update s.locks.todo t ops) (u : Thread) {x : SyncOp}
    (hx : x ∈ s'.locks.todo u) : x ∈ s.locks.todo u := by
  rw [htodo] at hx
  by_cases hu : u = t
  · subst hu
    rw [Function.update_self] at hx
    rw [hops]
    exact List.mem_cons_of_mem _ hx
  · rwa [Function.update_of_ne hu] at hx

theorem Kept.advance {s s' : LircSync} {t : Thread} {es : List SyncEvent} (h : s.Kept)
    (hq : s.quiet (.advance t) = true) (hs : s.advance t = some (s',es)) : s'.Kept := by
  obtain ⟨op,ops,locks,w,hops,hadv,htodo,rfl,_,hcallers,hdestroyed,_⟩ := advance_cases hs
  have hsub : ∀ u, ∀ x ∈ s'.locks.todo u, x ∈ s.locks.todo u :=
    fun u x hx => mem_of_advanced hops htodo u hx
  refine ⟨h.ordered.advance hadv,fun u hu w hw => h.works u hu w (hsub u _ hw),?_,?_,?_⟩
  · rw [htodo]
    by_cases ht : t = .main
    · subst ht
      rw [Function.update_self]
      right
      rcases h.closing with hclose | hno
      · rw [hclose,List.cons.injEq] at hops
        simp [← hops.2]
      · exact fun hmem => hno (by rw [hops]; exact List.mem_cons_of_mem _ hmem)
    · rw [Function.update_of_ne (Ne.symm ht)]
      exact h.closing
  · intro u hu
    rw [hcallers]
    refine h.callers u fun hnil => hu (List.eq_nil_iff_forall_not_mem.mpr fun x hx => ?_)
    have hmem := hsub u x hx
    rw [hnil] at hmem
    exact absurd hmem List.not_mem_nil
  · intro hd u x hx
    rw [hdestroyed,Bool.or_eq_true] at hd
    rcases hd with hd | hop
    · exact h.dead hd u x (hsub u x hx)
    · obtain rfl := eq_of_beq hop
      obtain ⟨_,hothers⟩ := quiet_advance h hq hops
      by_cases hu : u = t
      · subst hu
        rw [htodo,Function.update_self] at hx
        rw [h.destroy_next hops] at hx
        exact ⟨_,List.mem_singleton.mp hx⟩
      · have hmem := hsub u x hx
        rw [hothers u hu] at hmem
        exact absurd hmem List.not_mem_nil

theorem lircClose_mem {l l' : System} {a : Action} {es : List Event}
    (hs : l.step a = some (l',es)) (hmem : .lircClose ∈ es) :
    (∃ ok, a = .loop ok) ∧ es = [.lircClose] := by
  cases a with
  | loop ok =>
    refine ⟨⟨ok,rfl⟩,?_⟩
    cases System.step_loop hs with
    | lircClosed => rfl
    | passed _ _ _ _ hd =>
      have hle := mem_loopEvents hmem rfl
      simp [hd.loopEvents_eq] at hle
    | _ => simp at hmem
  | callback | signal =>
    have ha := System.step_aside hs (by simp)
    have hle := mem_loopEvents hmem rfl
    simp [ha.main.quiet] at hle

theorem Kept.step {s s' : LircSync} {a : SyncAction} {es : List SyncEvent} (h : s.Kept)
    (hq : s.quiet a = true) (hs : s.step a = some (s',es)) :
    s'.Kept ∧ ∀ e ∈ es, e.legal = true := by
  unfold LircSync.step at hs
  split at hs
  · simp at hs
  cases a with
  | loop ok =>
    simp only at hs
    split at hs
    · next hidle =>
      obtain ⟨⟨l,fs⟩,hl,hr⟩ := Option.map_eq_some_iff.mp hs
      obtain ⟨rfl,rfl⟩ := Prod.mk.inj hr
      refine ⟨h.enter (List.isEmpty_iff.mp hidle) l (fun hmem => ⟨rfl,(lircClose_mem hl hmem).2⟩)
        fun hd => ?_,by simp⟩
      simpa [quiet,hd,hl] using hq
    · simp at hs
  | callback n c =>
    simp only at hs
    split at hs
    · next hidle =>
      obtain ⟨⟨l,fs⟩,hl,hr⟩ := Option.map_eq_some_iff.mp hs
      obtain ⟨rfl,rfl⟩ := Prod.mk.inj hr
      have hfs : fs = (s.loop.main.callback c).2 := by
        rcases (System.step_cases hl).2 with ⟨_,ha,_⟩ | ⟨_,ha,_,hfs⟩ | ⟨_,ha,_⟩
        · simp at ha
        · rw [hfs,Action.callback.inj ha]
        · simp at ha
      refine ⟨h.enter (List.isEmpty_iff.mp hidle) l (fun hmem => ?_) fun hd => ?_,by simp⟩
      · obtain ⟨⟨ok,ha⟩,_⟩ := lircClose_mem hl hmem
        simp at ha
      · simpa [quiet,hd,hfs] using hq
    · simp at hs
  | signal sigNum =>
    obtain ⟨⟨l,fs⟩,_,hr⟩ := Option.map_eq_some_iff.mp hs
    obtain ⟨rfl,rfl⟩ := Prod.mk.inj hr
    exact ⟨⟨h.ordered,h.works,h.closing,h.callers,h.dead⟩,by simp⟩
  | newclient =>
    simp only at hs
    split at hs
    · next hidle =>
      rw [Bool.and_eq_true,List.isEmpty_iff] at hidle
      obtain ⟨rfl,rfl⟩ := Prod.mk.inj (Option.some.inj hs)
      have hd : s.destroyed = false := by simpa [quiet] using hq
      refine ⟨h.begin hidle.2 (disciplined_syncCode (.line ⟨0,false,""⟩) rfl) ?_ ?_,by simp⟩
      · simp [syncSection]
      · simp [hd]
    · simp at hs
  | advance t => exact ⟨h.advance hq hs,h.legal hq hs⟩

theorem initial_kept (c : Settings) : (initial c).Kept where
  ordered := fun t => by
    have h : (initial c).locks.held t = ∅ := by
      ext m
      simp [initial,Machine.held]
    exact h
  works := by simp [initial]
  closing := .inr (by simp [initial])
  callers := by simp [initial]
  dead := by simp [initial]

end LircSync

/-- Over any restarts and any interleaving: as long as the steps are quiet, every lock and
unlock finds the mutex initialised, and it is destroyed only when it is free. -/
theorem lircSync_legal {c : Settings} {as : List SyncAction} {s : LircSync}
    {tr : List SyncEvent} (hr : run LircSync.step (.initial c) as = some (s,tr))
    (hq : EveryStep LircSync.step (fun s a => s.quiet a = true) (.initial c) as) :
    ∀ e ∈ tr, e.legal = true := by
  have h : s.Kept ∧ ∀ e ∈ tr, e.legal = true :=
    invariant_of_everyStep (I := fun s tr => LircSync.Kept s ∧ ∀ e ∈ tr, e.legal = true)
      (fun s tr a t es hI hqa hs => by
        obtain ⟨hkept,hlegal⟩ := hI.1.step hqa hs
        refine ⟨hkept,fun e he => ?_⟩
        rcases List.mem_append.mp he with he | he
        · exact hI.2 e he
        · exact hlegal e he)
      ⟨LircSync.initial_kept c,by simp⟩ hq hr
  exact h.2

theorem lircSync_legal_one_session :
    ∃ s tr, run LircSync.step (.initial .none)
        [.loop true,.loop true,.loop true,.loop true,.loop true,
          .callback 0 (.keyPress ⟨UserControlCode.up,0⟩),.newclient,
          .advance (.callback 0),.advance (.callback 0),.advance .accept,.advance .accept,
          .callback 1 .stop,.loop true,.loop true,.loop true,.loop true,.loop true,
          .advance .main,.advance .main,.loop true] = some (s,tr) ∧
      ∀ e ∈ tr, e.legal = true := by
  have h : (run LircSync.step (.initial .none)
        [.loop true,.loop true,.loop true,.loop true,.loop true,
          .callback 0 (.keyPress ⟨UserControlCode.up,0⟩),.newclient,
          .advance (.callback 0),.advance (.callback 0),.advance .accept,.advance .accept,
          .callback 1 .stop,.loop true,.loop true,.loop true,.loop true,.loop true,
          .advance .main,.advance .main,.loop true]).map (fun r => r.1.loop.pc) =
            some .returned := by decide
  obtain ⟨⟨s,tr⟩,hr,_⟩ := Option.map_eq_some_iff.mp h
  exact ⟨s,tr,hr,lircSync_legal hr (everyStep_of_check (by decide))⟩

/-- A restart: in the second session the key's line locks the mutex that the first one's
`Close` destroyed. -/
theorem restart_locks_destroyed :
    ∃ as s tr, run LircSync.step (.initial .none) as = some (s,tr) ∧
      tr = [.destroy true,.lock (.callback 0) false] ∧ ¬ ∀ e ∈ tr, e.legal = true := by
  have h : (run LircSync.step (.initial .none)
        [.loop true,.loop true,.loop true,.loop true,.loop true,.callback 0 .restart,
          .loop true,.loop true,.loop true,.loop true,.loop true,
          .advance .main,.advance .main,.loop true,.loop true,.loop true,
          .callback 0 (.keyPress ⟨UserControlCode.up,0⟩),.advance (.callback 0)]).map
            (fun r => r.2) = some [.destroy true,.lock (.callback 0) false] := by decide
  obtain ⟨⟨s,tr⟩,hr,htr⟩ := Option.map_eq_some_iff.mp h
  refine ⟨_,s,tr,hr,htr,?_⟩
  rw [show tr = _ from htr]
  decide

end Ceclircd
