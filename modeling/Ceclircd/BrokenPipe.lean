import Ceclircd.LircClients
import Ceclircd.MainLoop
set_option autoImplicit false

/-! `processevent` when clients have gone: every write to a closed peer raises SIGPIPE
on the writing thread, and its handler pushes a restart under `libcec_sync`. -/

namespace Ceclircd
open RunTrace

/-- Where `libcec_sync` is when `processevent` is called. The loop holds it while it
handles a STANDBY, and then either writes itself or waits for `lirc_sync`. -/
inductive LibcecSync where
  | available
  | callerHolds
  | loopWaits
  deriving DecidableEq, Repr

inductive Ending where
  | terminated
  | blocked
  deriving DecidableEq, Repr

/-- SIGPIPE on the writing thread: the handler needs `libcec_sync` for its push. -/
def System.sigpipe (s : System) (sync : LibcecSync) : Except Ending System :=
  match s.disposition .pipe with
  | .default => .error .terminated
  | .signalHandler =>
      match sync with
      | .available => .ok (s.deliver .pipe).1
      | .callerHolds | .loopWaits => .error .blocked

def writePeer (closed : Int → Bool) (sync : LibcecSync) (message : List UInt8)
    (outcome : Int → Option Nat) (s : System) (fd : Int) :
    Except Ending (System × Int × List UInt8) :=
  if closed fd then do
    let s ← s.sigpipe sync
    pure (s,write message none)
  else pure (s,write message (outcome fd))

def writePeers (closed : Int → Bool) (sync : LibcecSync) (message : List UInt8)
    (outcome : Int → Option Nat) :
    List Int → System → List Conn → Except Ending (System × List Int × List Conn)
  | [], s, conns => pure (s,[],conns)
  | fd :: rest, s, conns => do
      let (s,ret,bytes) ← writePeer closed sync message outcome s fd
      let conns := atFd conns fd (Conn.receive bytes)
      if ret ≠ len message then
        let (s,fds,conns) ← writePeers closed sync message outcome rest s
          (atFd conns fd Conn.close)
        pure (s,-1 :: fds,conns)
      else
        let (s,fds,conns) ← writePeers closed sync message outcome rest s conns
        pure (s,fd :: fds,conns)

def System.processevent (closed : Int → Bool) (sync : LibcecSync) (message : List UInt8)
    (outcome : Int → Option Nat) (s : System) (l : Lirc) : Except Ending (System × Lirc) := do
  let (s,fds,conns) ← writePeers closed sync message outcome l.clients s l.conns
  pure (s,⟨unlinkClosed fds,conns⟩)

def raisePipes (closed : Int → Bool) (sync : LibcecSync) :
    List Int → System → Except Ending System
  | [], s => .ok s
  | fd :: rest, s =>
      if closed fd then do
        let s ← s.sigpipe sync
        raisePipes closed sync rest s
      else raisePipes closed sync rest s

def peerOutcome (closed : Int → Bool) (outcome : Int → Option Nat) (fd : Int) : Option Nat :=
  if closed fd then none else outcome fd

theorem writePeers_cons {closed : Int → Bool} {sync : LibcecSync} {message : List UInt8}
    {outcome : Int → Option Nat} {fd : Int} {rest : List Int} {s s' : System}
    (hpeer : writePeer closed sync message outcome s fd =
      .ok (s',write message (peerOutcome closed outcome fd)))
    (ih : ∀ conns, writePeers closed sync message outcome rest s' conns =
      (raisePipes closed sync rest s').map fun t =>
        (t,writeClients message (peerOutcome closed outcome) rest conns)) (conns : List Conn) :
    writePeers closed sync message outcome (fd :: rest) s conns =
      (raisePipes closed sync rest s').map fun t =>
        (t,writeClients message (peerOutcome closed outcome) (fd :: rest) conns) := by
  rw [writePeers,hpeer,writeClients]
  generalize write message (peerOutcome closed outcome fd) = w
  obtain ⟨ret,bytes⟩ := w
  by_cases hret : ret ≠ len message
  · simp only [bind,Except.bind,ih]
    rw [if_pos hret,if_pos hret]
    cases raisePipes closed sync rest s' <;> rfl
  · simp only [bind,Except.bind,ih]
    rw [if_neg hret,if_neg hret]
    cases raisePipes closed sync rest s' <;> rfl

/-- The signals do not reach the client list: a call that survives them does what it
does with errors in their place. -/
theorem writePeers_eq (closed : Int → Bool) (sync : LibcecSync) (message : List UInt8)
    (outcome : Int → Option Nat) (fds : List Int) (s : System) (conns : List Conn) :
    writePeers closed sync message outcome fds s conns =
      (raisePipes closed sync fds s).map fun s' =>
        (s',writeClients message (peerOutcome closed outcome) fds conns) := by
  induction fds generalizing s conns with
  | nil => rfl
  | cons fd rest ih =>
    cases hc : closed fd with
    | true =>
      cases hs : s.sigpipe sync with
      | error e => simp [writePeers,writePeer,raisePipes,hc,hs,bind,Except.bind,Except.map]
      | ok s' =>
        have hpeer : writePeer closed sync message outcome s fd =
            .ok (s',write message (peerOutcome closed outcome fd)) := by
          simp [writePeer,peerOutcome,hc,hs,bind,Except.bind,pure,Except.pure]
        rw [writePeers_cons hpeer (ih s')]
        simp [raisePipes,hc,hs,bind,Except.bind]
    | false =>
      have hpeer : writePeer closed sync message outcome s fd =
          .ok (s,write message (peerOutcome closed outcome fd)) := by
        simp [writePeer,peerOutcome,hc,pure,Except.pure]
      rw [writePeers_cons hpeer (ih s)]
      simp [raisePipes,hc]

theorem processevent_eq_map (closed : Int → Bool) (sync : LibcecSync) (message : List UInt8)
    (outcome : Int → Option Nat) (s : System) (l : Lirc) :
    s.processevent closed sync message outcome l =
      (raisePipes closed sync l.clients s).map fun s' =>
        (s',l.processevent message (peerOutcome closed outcome)) := by
  rw [System.processevent,writePeers_eq]
  cases raisePipes closed sync l.clients s <;> rfl

/-- `SA_RESETHAND`: the handler serves one signal. -/
theorem sigpipe_ok {s s' : System} {sync : LibcecSync} (h : s.sigpipe sync = .ok s') :
    s.disposition .pipe = .signalHandler ∧ sync = .available ∧
      s'.disposition .pipe = .default := by
  unfold System.sigpipe at h
  cases hd : s.disposition .pipe with
  | default => simp [hd] at h
  | signalHandler =>
    cases sync with
    | available =>
      simp only [hd,Except.ok.injEq] at h
      exact ⟨rfl,rfl,by simp [← h,System.deliver,hd]⟩
    | callerHolds | loopWaits => simp [hd] at h

def Survives (closed : Int → Bool) (sync : LibcecSync) (s : System) (fds : List Int) : Prop :=
  fds.countP closed = 0 ∨
    (fds.countP closed = 1 ∧ s.disposition .pipe = .signalHandler ∧ sync = .available)

theorem raisePipes_isOk_iff (closed : Int → Bool) (sync : LibcecSync) (fds : List Int)
    (s : System) : (∃ s', raisePipes closed sync fds s = .ok s') ↔
      Survives closed sync s fds := by
  induction fds generalizing s with
  | nil => simp [raisePipes,Survives]
  | cons fd rest ih =>
    cases hc : closed fd with
    | false => simpa [raisePipes,Survives,hc] using ih s
    | true =>
      cases hs : s.sigpipe sync with
      | error e =>
        simp only [raisePipes,hc,if_true,hs,bind,Except.bind,reduceCtorEq,exists_false,false_iff]
        rintro (h0 | ⟨_,hd,rfl⟩)
        · simp [hc] at h0
        · simp [System.sigpipe,hd] at hs
      | ok s' =>
        obtain ⟨hd,hsync,hd'⟩ := sigpipe_ok hs
        simp only [raisePipes,hc,if_true,hs,bind,Except.bind,ih s']
        simp [Survives,hc,hd,hd',hsync]

/-- The call comes to its end: the clients whose peer has closed are gone, and every
other connection got what `write` transmits of the message. -/
def RunsToEnd (closed : Int → Bool) (message : List UInt8) (outcome : Int → Option Nat)
    (l : Lirc) (r : Except Ending (System × Lirc)) : Prop :=
  ∃ s' l', r = .ok (s',l') ∧ (∀ fd ∈ l.clients, closed fd = true → fd ∉ l'.clients) ∧
    ∀ (i : Nat) (c : Conn), l.conns[i]? = some c → c.isOpen = true → closed c.fd = false →
      l'.conns[i]? = some (c.deliver message outcome)

theorem failed_closed {closed : Int → Bool} {message : List UInt8}
    (hfit : message.length ≤ intMax) (outcome : Int → Option Nat) {fd : Int}
    (hc : closed fd = true) : failed message (peerOutcome closed outcome) fd = true := by
  have hl := len_eq hfit
  have hne : (-1 : Int) ≠ len message := by omega
  simpa [failed,peerOutcome,hc,write] using hne

theorem deliver_peerOutcome {closed : Int → Bool} (message : List UInt8)
    (outcome : Int → Option Nat) {c : Conn} (hc : closed c.fd = false) :
    c.deliver message (peerOutcome closed outcome) = c.deliver message outcome := by
  simp [Conn.deliver,failed,peerOutcome,hc]

/-- With no peer closed a call always comes to its end; with one, if the handler is
installed and can take `libcec_sync`; with more, never. -/
theorem processevent_runsToEnd_iff {calls : List Call} {l : Lirc} {tr : List Empty}
    (hl : run Lirc.step .initial calls = some (l,tr)) {message : List UInt8}
    (hfit : message.length ≤ intMax) (closed : Int → Bool) (sync : LibcecSync)
    (outcome : Int → Option Nat) (s : System) :
    RunsToEnd closed message outcome l (s.processevent closed sync message outcome l) ↔
      Survives closed sync s l.clients := by
  have hlist := run_listed hl
  rw [processevent_eq_map,← raisePipes_isOk_iff]
  constructor
  · rintro ⟨s',l',hr,_⟩
    cases hraise : raisePipes closed sync l.clients s with
    | error e => simp [hraise,Except.map] at hr
    | ok t => exact ⟨t,rfl⟩
  · rintro ⟨s',hraise⟩
    rw [hraise]
    refine ⟨s',_,rfl,fun fd _ hc hmem => ?_,fun i c hi ho hc => ?_⟩
    · rw [l.processevent_eq hlist] at hmem
      have hf := (List.mem_filter.mp hmem).2
      simp [failed_closed hfit outcome hc] at hf
    · have hmem : c.fd ∈ l.clients :=
        (hlist.mem_iff c.fd).mpr ⟨c,List.mem_of_getElem? hi,ho,rfl⟩
      rw [l.processevent_eq hlist,List.getElem?_map,hi]
      simp [ho,hmem,deliver_peerOutcome message outcome hc]

theorem processevent_runsToEnd_one_closed :
    ∃ s str l ltr, run System.step (.initial .none)
        [.loop true,.loop true,.loop true,.loop true,.loop true,.loop true] = some (s,str) ∧
      run Lirc.step .initial [.processnewclient 5,.processnewclient 6] = some (l,ltr) ∧
      l.clients = [6,5] ∧
      RunsToEnd (fun fd => fd == 6) [97,10] (fun _ => some 2) l
        (s.processevent (fun fd => fd == 6) .available [97,10] (fun _ => some 2) l) := by
  have hl : run Lirc.step .initial [.processnewclient 5,.processnewclient 6] =
      some (⟨[6,5],[⟨5,true,[],0⟩,⟨6,true,[],0⟩]⟩,[]) := rfl
  refine ⟨_,_,_,_,rfl,hl,rfl,(processevent_runsToEnd_iff hl (by decide) _ _ _ _).mpr ?_⟩
  exact .inr ⟨rfl,rfl,rfl⟩

/-- Two closed peers end the process; one blocks it when the loop itself writes, in a
STANDBY under `libcec_sync`. -/
theorem processevent_terminated_or_blocked :
    (∃ s tr, run System.step (.initial .none)
        [.loop true,.loop true,.loop true,.loop true,.loop true,.loop true] = some (s,tr) ∧
      s.pc = .wait ∧ s.main.running = true ∧
      s.processevent (fun _ => true) .available [97,10] (fun _ => some 2)
        ⟨[6,5],[⟨5,true,[],0⟩,⟨6,true,[],0⟩]⟩ = .error .terminated) ∧
    ∃ s tr, run System.step (.initial .none)
        [.loop true,.loop true,.loop true,.loop true,.loop true,
          .callback (.command ⟨.standby,[]⟩)] = some (s,tr) ∧
      s.pc = .pass ∧ s.main.running = true ∧ s.main.commands = [.standby] ∧
      s.processevent (fun _ => true) .callerHolds [97,10] (fun _ => some 2)
        ⟨[5],[⟨5,true,[],0⟩]⟩ = .error .blocked :=
  ⟨⟨_,_,rfl,rfl,rfl,rfl⟩,⟨_,_,rfl,rfl,rfl,rfl,rfl⟩⟩

end Ceclircd
