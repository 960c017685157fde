import Ceclircd.LircHandles
set_option autoImplicit false

/-! `lirc::Open` and `lirc::Close` statement by statement, against the accept thread that
runs `lirc::main_loop`, over any number of rounds. -/

namespace Ceclircd
open RunTrace

inductive Socket where
  | closed
  | made
  | listening
  | shutDown
  deriving DecidableEq, Repr

/-- The next statement of the thread that opens and closes. At `socket` nothing is open, at
`opened` an `Open` has returned true and its `Close` comes next. -/
inductive OwnerPc where
  | socket
  | bind
  | listen
  | create
  | setRunning
  | opened
  | shutdown
  | close
  | join
  deriving DecidableEq, Repr

/-- The next statement of the accept thread. `ending`: it has read false and is about to
leave; `threw`: an exception left `extf`, which ends the process. -/
inductive ThreadPc where
  | absent
  | test
  | select
  | processnewclient
  | ending
  | left
  | threw
  deriving DecidableEq, Repr

def ThreadPc.inLoop : ThreadPc → Bool
  | .test | .select | .processnewclient => true
  | _ => false

theorem ThreadPc.alive_of_inLoop {p : ThreadPc} (h : p.inLoop = true) :
    p ≠ .absent ∧ p ≠ .threw := by
  constructor
  · rintro rfl
    simp [inLoop] at h
  · rintro rfl
    simp [inLoop] at h

structure Server where
  sockfd : Int
  isRunning : Bool
  socket : Socket
  pending : Nat
  owner : OwnerPc
  thread : ThreadPc
  deriving DecidableEq, Repr

/-- What may come over a system call of the accept thread, or its `malloc`. -/
inductive Hitch where
  | none
  | eintr
  | noMemory
  deriving DecidableEq, Repr

inductive ServerAction where
  | owner (result : Int)
  | thread (hitch : Hitch)
  | connect
  deriving DecidableEq, Repr

namespace Server

def initial : Server := ⟨-1,false,.closed,0,.socket,.absent⟩

def readable (s : Server) : Bool :=
  match s.socket with
  | .listening => 0 < s.pending
  | .shutDown => true
  | .closed | .made => false

/-- `lirc::Open`, then `lirc::Close`. `pthread_join` waits until the thread has left. -/
def ownerStep (s : Server) (result : Int) : Option Server :=
  match s.owner with
  | .socket =>
    if result < 0 then some { s with sockfd := result }
    else some { s with sockfd := result, socket := .made, pending := 0, owner := .bind }
  | .bind => some { s with owner := if result < 0 then .socket else .listen }
  | .listen =>
    if result < 0 then some { s with owner := .socket }
    else some { s with socket := .listening, owner := .create }
  | .create =>
    if result ≠ 0 then some { s with owner := .socket }
    else some { s with thread := .test, owner := .setRunning }
  | .setRunning => some { s with isRunning := true, owner := .opened }
  | .opened => some { s with isRunning := false, owner := .shutdown }
  | .shutdown =>
    if s.sockfd ≥ 0 then some { s with socket := .shutDown, owner := .close }
    else some { s with owner := .join }
  | .close => some { s with socket := .closed, owner := .join }
  | .join => if s.thread = .left then some { s with thread := .absent, owner := .socket } else none

/-- `lirc::main_loop`. The set of `select` has only `sockfd`, so `FD_ISSET` holds whenever
it returns one; `accept` fails without an exception, but `xalloc` throws. -/
def threadStep (s : Server) (hitch : Hitch) : Option Server :=
  match s.thread with
  | .absent | .left | .threw => none
  | .test => some { s with thread := if s.isRunning then .select else .ending }
  | .select =>
    if s.socket = .closed then some { s with thread := .threw }
    else match hitch with
      | .eintr => some { s with thread := .test }
      | .noMemory => some { s with thread := .threw }
      | .none => if s.readable then some { s with thread := .processnewclient } else none
  | .processnewclient =>
    if hitch = .noMemory then some { s with thread := .threw }
    else some { s with pending := s.pending - 1, thread := .test }
  | .ending => some { s with thread := .left }

def step (s : Server) (a : ServerAction) : Option (Server × List Empty) :=
  if s.thread = .threw then none
  else match a with
    | .owner result => (s.ownerStep result).map fun t => (t,[])
    | .thread hitch => (s.threadStep hitch).map fun t => (t,[])
    | .connect =>
      if s.socket = .listening then some ({ s with pending := s.pending + 1 },[]) else none

theorem map_silent_iff {x : Option Server} {t : Server} {es : List Empty} :
    x.map (fun t => (t,([] : List Empty))) = some (t,es) ↔ x = some t ∧ es = [] := by
  cases x with
  | none => simp
  | some u => simp [eq_comm]

theorem step_owner_iff {s t : Server} {result : Int} {es : List Empty} :
    s.step (.owner result) = some (t,es) ↔
      s.thread ≠ .threw ∧ s.ownerStep result = some t ∧ es = [] := by
  by_cases ht : s.thread = .threw
  · simp [step,ht]
  · simp only [step,if_neg ht,map_silent_iff]
    simp [ht]

theorem step_thread_iff {s t : Server} {hitch : Hitch} {es : List Empty} :
    s.step (.thread hitch) = some (t,es) ↔
      s.thread ≠ .threw ∧ s.threadStep hitch = some t ∧ es = [] := by
  by_cases ht : s.thread = .threw
  · simp [step,ht]
  · simp only [step,if_neg ht,map_silent_iff]
    simp [ht]

theorem step_connect_iff {s t : Server} {es : List Empty} :
    s.step .connect = some (t,es) ↔ s.thread ≠ .threw ∧ s.socket = .listening ∧
      t = { s with pending := s.pending + 1 } ∧ es = [] := by
  by_cases ht : s.thread = .threw
  · simp [step,ht]
  · simp [step,ht,eq_comm]

def agrees (s : Server) (h : LircHandle) : Prop := s.sockfd = h.sockfd ∧ s.isRunning = h.isRunning

end Server

def OpenOutcome.statements (o : OpenOutcome) : List ServerAction :=
  if o.socket < 0 then [.owner o.socket]
  else if o.bind < 0 then [.owner o.socket,.owner o.bind]
  else if o.listen < 0 then [.owner o.socket,.owner o.bind,.owner o.listen]
  else if o.pthreadCreate ≠ 0 then
    [.owner o.socket,.owner o.bind,.owner o.listen,.owner o.pthreadCreate]
  else [.owner o.socket,.owner o.bind,.owner o.listen,.owner o.pthreadCreate,.owner 0]

namespace Server

theorem run_statements {s : Server} {h : LircHandle} (o : OpenOutcome) (hs : s.owner = .socket)
    (ht : s.thread = .absent) (hh : s.agrees h) :
    ∃ t, run step s o.statements = some (t,[]) ∧ t.agrees (h.openWith o).1.1 ∧
      t.owner = if (h.openWith o).1.2 then .opened else .socket := by
  obtain ⟨hfd,hrunning⟩ := hh
  unfold OpenOutcome.statements LircHandle.openWith
  by_cases hsocket : o.socket < 0
  · simp [run,step,ownerStep,agrees,hs,ht,hsocket,hrunning]
  by_cases hbind : o.bind < 0
  · simp [run,step,ownerStep,agrees,hs,ht,hsocket,hbind,hrunning]
  by_cases hlisten : o.listen < 0
  · simp [run,step,ownerStep,agrees,hs,ht,hsocket,hbind,hlisten,hrunning]
  by_cases hcreate : o.pthreadCreate ≠ 0
  · simp [run,step,ownerStep,agrees,hs,ht,hsocket,hbind,hlisten,hcreate,hrunning]
  · simp [run,step,ownerStep,agrees,hs,ht,hsocket,hbind,hlisten,hcreate]

/-- From the return of `Open` to the write of `Close` the thread is in its loop, and it
never leaves it by an exception. -/
def Served (s : Server) : Prop :=
  s.thread ≠ .threw ∧ (s.owner = .opened → s.thread.inLoop = true)

/-- The thread reads `isRunning` only after its `Open` has written it, is not at its
`select` when `Close` closes the socket, and gets the memory it asks for. -/
def timely (s : Server) : ServerAction → Bool
  | .owner _ => !(s.owner == .close && s.thread == .select)
  | .thread hitch =>
    match s.thread with
    | .test => s.owner != .setRunning
    | .select | .processnewclient => hitch != .noMemory
    | _ => true
  | .connect => true

def threadAt (s : Server) : Prop :=
  match s.owner with
  | .socket | .bind | .listen | .create => s.thread = .absent
  | .setRunning => s.thread = .test
  | .opened => s.thread.inLoop = true
  | .shutdown | .close => s.thread ≠ .absent ∧ s.thread ≠ .threw
  | .join => s.thread ≠ .absent ∧ s.thread ≠ .select ∧ s.thread ≠ .threw

def socketAt (s : Server) : Prop :=
  match s.owner with
  | .socket => s.isRunning = false
  | .bind | .listen => 0 ≤ s.sockfd ∧ s.isRunning = false
  | .create | .setRunning => 0 ≤ s.sockfd ∧ s.socket = .listening ∧ s.isRunning = false
  | .opened => 0 ≤ s.sockfd ∧ s.socket = .listening ∧ s.isRunning = true
  | .shutdown => 0 ≤ s.sockfd ∧ s.socket = .listening ∧ s.isRunning = false
  | .close => s.socket = .shutDown ∧ s.isRunning = false
  | .join => s.isRunning = false

structure Kept (s : Server) : Prop where
  thread : s.threadAt
  socket : s.socketAt

theorem initial_kept : initial.Kept := ⟨rfl,rfl⟩

theorem Kept.served {s : Server} (h : s.Kept) : s.Served := by
  have hthread := h.thread
  unfold threadAt at hthread
  constructor
  · intro ht
    rw [ht] at hthread
    cases ho : s.owner with
    | _ => simp [ho,ThreadPc.inLoop] at hthread
  · intro ho
    simpa [ho] using hthread

theorem Kept.ownerStep {s t : Server} {result : Int} (h : s.Kept)
    (hq : s.timely (.owner result) = true) (hs : s.ownerStep result = some t) : t.Kept := by
  obtain ⟨hthread,hsocket⟩ := h
  unfold threadAt at hthread
  unfold socketAt at hsocket
  unfold Server.ownerStep at hs
  cases ho : s.owner with
  | socket =>
    simp only [ho] at hs hthread hsocket
    split at hs
    · obtain rfl := Option.some.inj hs
      exact ⟨hthread,hsocket⟩
    · next hr =>
      obtain rfl := Option.some.inj hs
      exact ⟨hthread,Int.not_lt.mp hr,hsocket⟩
  | bind =>
    simp only [ho] at hs hthread hsocket
    obtain rfl := Option.some.inj hs
    by_cases hr : result < 0
    · exact ⟨by simpa [threadAt,hr] using hthread,by simpa [socketAt,hr] using hsocket.2⟩
    · exact ⟨by simpa [threadAt,hr] using hthread,by simpa [socketAt,hr] using hsocket⟩
  | listen =>
    simp only [ho] at hs hthread hsocket
    split at hs
    · obtain rfl := Option.some.inj hs
      exact ⟨hthread,hsocket.2⟩
    · obtain rfl := Option.some.inj hs
      exact ⟨hthread,hsocket.1,rfl,hsocket.2⟩
  | create =>
    simp only [ho] at hs hthread hsocket
    split at hs
    · obtain rfl := Option.some.inj hs
      exact ⟨hthread,hsocket.2.2⟩
    · obtain rfl := Option.some.inj hs
      exact ⟨rfl,hsocket⟩
  | setRunning =>
    simp only [ho] at hs hthread hsocket
    obtain rfl := Option.some.inj hs
    exact ⟨by simp [threadAt,hthread,ThreadPc.inLoop],hsocket.1,hsocket.2.1,rfl⟩
  | opened =>
    simp only [ho] at hs hthread hsocket
    obtain rfl := Option.some.inj hs
    exact ⟨ThreadPc.alive_of_inLoop hthread,hsocket.1,hsocket.2.1,rfl⟩
  | shutdown =>
    simp only [ho] at hs hthread hsocket
    rw [if_pos hsocket.1] at hs
    obtain rfl := Option.some.inj hs
    exact ⟨hthread,rfl,hsocket.2.2⟩
  | close =>
    simp only [ho] at hs hthread hsocket
    obtain rfl := Option.some.inj hs
    have hselect : s.thread ≠ .select := by simpa [timely,ho] using hq
    exact ⟨⟨hthread.1,hselect,hthread.2⟩,hsocket.2⟩
  | join =>
    simp only [ho] at hs hsocket
    split at hs
    · obtain rfl := Option.some.inj hs
      exact ⟨rfl,hsocket⟩
    · simp at hs

theorem Kept.moved {s : Server} {p : ThreadPc} (h : s.Kept) (n : Nat)
    (hpast : s.thread ≠ .absent ∧ s.thread ≠ .test)
    (hp : p ≠ .absent ∧ p ≠ .select ∧ p ≠ .threw)
    (hloop : s.thread.inLoop = true → p.inLoop = true) :
    { s with pending := n, thread := p }.Kept := by
  refine ⟨?_,h.socket⟩
  have hthread := h.thread
  unfold threadAt at hthread ⊢
  cases ho : s.owner with
  | socket | bind | listen | create => simp [ho,hpast.1] at hthread
  | setRunning => simp [ho,hpast.2] at hthread
  | opened =>
    simp only [ho] at hthread
    exact hloop hthread
  | shutdown | close => exact ⟨hp.1,hp.2.2⟩
  | join => exact hp

theorem Kept.socket_of_select {s : Server} (h : s.Kept) (ht : s.thread = .select) :
    s.socket ≠ .closed := by
  obtain ⟨hthread,hsocket⟩ := h
  unfold threadAt at hthread
  unfold socketAt at hsocket
  cases ho : s.owner with
  | socket | bind | listen | create | setRunning | join => simp [ho,ht] at hthread
  | opened | shutdown | close =>
    simp only [ho] at hsocket
    simp [hsocket]

theorem Kept.threadStep {s t : Server} {hitch : Hitch} (h : s.Kept)
    (hq : s.timely (.thread hitch) = true) (hs : s.threadStep hitch = some t) : t.Kept := by
  have hthread := h.thread
  have hsocket := h.socket
  unfold threadAt at hthread
  unfold Server.threadStep at hs
  cases ht : s.thread with
  | absent | left | threw => simp [ht] at hs
  | test =>
    simp only [ht] at hs
    obtain rfl := Option.some.inj hs
    refine ⟨?_,hsocket⟩
    have howner : s.owner ≠ .setRunning := by simpa [timely,ht] using hq
    unfold threadAt
    unfold socketAt at hsocket
    cases ho : s.owner with
    | socket | bind | listen | create => simp [ho,ht] at hthread
    | setRunning => exact absurd ho howner
    | opened =>
      simp only [ho] at hsocket
      simp [hsocket.2.2,ThreadPc.inLoop]
    | shutdown =>
      simp only [ho] at hsocket
      simp [hsocket.2.2]
    | close =>
      simp only [ho] at hsocket
      simp [hsocket.2]
    | join =>
      simp only [ho] at hsocket
      simp [hsocket]
  | select =>
    have hhitch : hitch ≠ .noMemory := by simpa [timely,ht] using hq
    simp only [ht] at hs
    rw [if_neg (h.socket_of_select ht)] at hs
    cases hitch with
    | none =>
      simp only at hs
      split at hs
      · obtain rfl := Option.some.inj hs
        exact h.moved s.pending (by simp [ht]) (by simp) fun _ => rfl
      · simp at hs
    | eintr =>
      obtain rfl := Option.some.inj hs
      exact h.moved s.pending (by simp [ht]) (by simp) fun _ => rfl
    | noMemory => exact absurd rfl hhitch
  | processnewclient =>
    have hhitch : hitch ≠ .noMemory := by simpa [timely,ht] using hq
    simp only [ht] at hs
    rw [if_neg hhitch] at hs
    obtain rfl := Option.some.inj hs
    exact h.moved (s.pending - 1) (by simp [ht]) (by simp) fun _ => rfl
  | ending =>
    simp only [ht] at hs
    obtain rfl := Option.some.inj hs
    exact h.moved s.pending (by simp [ht]) (by simp) fun hin => by simp [ht,ThreadPc.inLoop] at hin

theorem Kept.not_running {s : Server} (h : s.Kept) (ho : s.owner = .setRunning) :
    s.isRunning = false := by
  have hsocket := h.socket
  unfold socketAt at hsocket
  simp only [ho] at hsocket
  exact hsocket.2.2

theorem Kept.step {s t : Server} {a : ServerAction} {es : List Empty} (h : s.Kept)
    (hq : s.timely a = true) (hs : s.step a = some (t,es)) : t.Kept := by
  cases a with
  | owner result => exact h.ownerStep hq (step_owner_iff.mp hs).2.1
  | thread hitch => exact h.threadStep hq (step_thread_iff.mp hs).2.1
  | connect =>
    obtain ⟨_,_,rfl,_⟩ := step_connect_iff.mp hs
    exact ⟨h.thread,h.socket⟩

theorem run_kept {as : List ServerAction} {s : Server} {tr : List Empty}
    (hr : run step initial as = some (s,tr))
    (hq : EveryStep step (fun s a => s.timely a = true) initial as) : s.Kept :=
  invariant_of_everyStep (I := fun s _ => Kept s)
    (fun _ _ _ _ _ hkept hqa hs => hkept.step hqa hs) initial_kept hq hr

end Server

/-- Over any number of rounds and any interleaving: as long as the steps are timely, the
thread of an `Open` that returned true is in its loop until `Close` has written false, and
leaves it by the loop condition. -/
theorem server_served {as : List ServerAction} {s : Server} {tr : List Empty}
    (hr : run Server.step .initial as = some (s,tr))
    (hq : EveryStep Server.step (fun s a => s.timely a = true) .initial as) : s.Served :=
  (Server.run_kept hr hq).served

theorem server_served_two_rounds :
    ∃ s tr, run Server.step .initial
        [.owner 7,.owner 0,.owner 0,.owner 0,.owner 0,.thread .none,.connect,.thread .eintr,
          .thread .none,.thread .none,.thread .none,.thread .none,.owner 0,.owner 0,
          .thread .none,.owner 0,.thread .none,.thread .none,.thread .none,.owner 0,
          .owner 7,.owner 0,.owner 0,.owner 0,.owner 0,.thread .none,.connect,
          .thread .none] = some (s,tr) ∧ s.Served := by
  have h : (run Server.step .initial
        [.owner 7,.owner 0,.owner 0,.owner 0,.owner 0,.thread .none,.connect,.thread .eintr,
          .thread .none,.thread .none,.thread .none,.thread .none,.owner 0,.owner 0,
          .thread .none,.owner 0,.thread .none,.thread .none,.thread .none,.owner 0,
          .owner 7,.owner 0,.owner 0,.owner 0,.owner 0,.thread .none,.connect,
          .thread .none]).isSome = true := by decide
  obtain ⟨⟨s,tr⟩,hr⟩ := Option.isSome_iff_exists.mp h
  exact ⟨s,tr,hr,server_served hr (everyStep_of_check (by decide))⟩

/-- The condition leaves out nothing: a step that is not timely is at once followed by, or
itself gives, a state that is not served. -/
theorem untimely_unserved {as : List ServerAction} {s t : Server} {a : ServerAction}
    {tr es : List Empty} (hr : run Server.step .initial as = some (s,tr))
    (hq : EveryStep Server.step (fun s a => s.timely a = true) .initial as)
    (hs : s.step a = some (t,es)) (ha : s.timely a = false) :
    ∃ bs u fs, run Server.step t bs = some (u,fs) ∧ ¬ u.Served := by
  have hkept := Server.run_kept hr hq
  cases a with
  | owner result =>
    -- the next `select` of the thread finds the socket closed
    obtain ⟨ho,ht⟩ : s.owner = .close ∧ s.thread = .select := by simpa [Server.timely] using ha
    obtain ⟨_,hstep,_⟩ := Server.step_owner_iff.mp hs
    have htstep : t.threadStep .none = some { t with thread := .threw } := by
      obtain rfl : _ = t := by simpa [Server.ownerStep,ho] using hstep
      simp [Server.threadStep,ht]
    have htthrew : t.thread ≠ .threw := by
      obtain rfl : _ = t := by simpa [Server.ownerStep,ho] using hstep
      simp [ht]
    exact ⟨[.thread .none],_,_,run_singleton_iff.mpr
      (Server.step_thread_iff.mpr ⟨htthrew,htstep,rfl⟩),fun h => h.1 rfl⟩
  | thread hitch =>
    obtain ⟨_,hstep,_⟩ := Server.step_thread_iff.mp hs
    cases ht : s.thread with
    | test =>
      -- it has read false, and then `Open` returns true
      have ho : s.owner = .setRunning := by simpa [Server.timely,ht] using ha
      have hfalse : s.isRunning = false := hkept.not_running ho
      obtain rfl : _ = t := by simpa [Server.threadStep,ht,hfalse] using hstep
      refine ⟨[.owner 0],{ s with isRunning := true, owner := .opened, thread := .ending },[],
        run_singleton_iff.mpr (Server.step_owner_iff.mpr ⟨by simp,by simp [Server.ownerStep,ho],
          rfl⟩),fun h => ?_⟩
      simpa [ThreadPc.inLoop] using h.2 rfl
    | select =>
      have hhitch : hitch = .noMemory := by simpa [Server.timely,ht] using ha
      obtain rfl : _ = t := by
        simpa [Server.threadStep,ht,hkept.socket_of_select ht,hhitch] using hstep
      exact ⟨[],_,_,rfl,fun h => h.1 rfl⟩
    | processnewclient =>
      have hhitch : hitch = .noMemory := by simpa [Server.timely,ht] using ha
      obtain rfl : _ = t := by simpa [Server.threadStep,ht,hhitch] using hstep
      exact ⟨[],_,_,rfl,fun h => h.1 rfl⟩
    | absent | ending | left | threw => simp [Server.timely,ht] at ha
  | connect => simp [Server.timely] at ha

/-- The thread reads `isRunning` before `Open` writes it and is gone when `Open` returns. In
another run it has read true when `Close` closes the socket, and its `select` throws. -/
theorem early_test_and_late_select :
    (∃ as s tr, run Server.step .initial as = some (s,tr) ∧
      (s.owner = .opened ∧ s.thread = .left) ∧ ¬ s.Served) ∧
    ∃ as s tr, run Server.step .initial as = some (s,tr) ∧
      (s.owner = .join ∧ s.thread = .threw) ∧ ¬ s.Served := by
  have hleft : (run Server.step .initial [.owner 7,.owner 0,.owner 0,.owner 0,.thread .none,
      .owner 0,.thread .none]).map (fun r => (r.1.owner,r.1.thread)) =
        some (.opened,.left) := by decide
  have hthrew : (run Server.step .initial [.owner 7,.owner 0,.owner 0,.owner 0,.owner 0,
      .thread .none,.owner 0,.owner 0,.owner 0,.thread .none]).map
        (fun r => (r.1.owner,r.1.thread)) = some (.join,.threw) := by decide
  obtain ⟨⟨s,tr⟩,hr,heq⟩ := Option.map_eq_some_iff.mp hleft
  obtain ⟨⟨t,es⟩,hr',heq'⟩ := Option.map_eq_some_iff.mp hthrew
  simp only [Prod.mk.injEq] at heq heq'
  refine ⟨⟨_,s,tr,hr,heq,fun h => ?_⟩,_,t,es,hr',heq',fun h => h.1 heq'.2⟩
  simpa [heq.2,ThreadPc.inLoop] using h.2 heq.1

end Ceclircd
