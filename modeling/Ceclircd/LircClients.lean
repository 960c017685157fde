import Ceclircd.MainState
import Ceclircd.RunTrace
import Mathlib.Data.List.Forall2
set_option autoImplicit false

/-! The clients of class `lirc`: the list of descriptors, and the connections behind
them, whose descriptor numbers the kernel reuses. -/

namespace Ceclircd
open RunTrace

/-- An accepted connection; `closes` counts the calls of `close` on its descriptor. -/
structure Conn where
  fd : Int
  isOpen : Bool
  received : List UInt8
  closes : Nat
  deriving DecidableEq, Repr

namespace Conn

def receive (bytes : List UInt8) (c : Conn) : Conn := { c with received := c.received ++ bytes }

def close (c : Conn) : Conn := { c with isOpen := false, closes := c.closes + 1 }

end Conn

/-- The client list, head first, and all connections accepted so far, oldest first. -/
structure Lirc where
  clients : List Int
  conns : List Conn
  deriving DecidableEq, Repr

def Lirc.initial : Lirc := ⟨[],[]⟩

/-- `fd` is what `accept` returns; `outcome` is what `write` does on each descriptor:
fail, or take so many bytes, as far as it was asked to. -/
inductive Call where
  | processnewclient (fd : Int)
  | processevent (message : List UInt8) (outcome : Int → Option Nat)

/-- A system call on a descriptor reaches the connection that is open under it. -/
def atFd (conns : List Conn) (fd : Int) (f : Conn → Conn) : List Conn :=
  conns.map fun c => if c.isOpen = true ∧ c.fd = fd then f c else c

/-- `int len = strlen(message)`; a message is the bytes before the terminating zero. -/
def len (message : List UInt8) : Int := toInt32 message.length

/-- `len` as the `size_t` that `write` takes. -/
def count (message : List UInt8) : Nat := (len message % 2 ^ 64).toNat

/-- `write(fd, message, len)`: the value returned and the bytes transmitted. -/
def write (message : List UInt8) : Option Nat → Int × List UInt8
  | none => (-1,[])
  | some n => ((min n (count message) : Nat),message.take (min n (count message)))

/-- The first `for` of `processevent`: a descriptor that was closed becomes -1. -/
def writeClients (message : List UInt8) (outcome : Int → Option Nat) :
    List Int → List Conn → List Int × List Conn
  | [], conns => ([],conns)
  | fd :: rest, conns =>
      let (ret,bytes) := write message (outcome fd)
      let conns := atFd conns fd (Conn.receive bytes)
      if ret ≠ len message then
        let (fds,conns) := writeClients message outcome rest (atFd conns fd Conn.close)
        (-1 :: fds,conns)
      else
        let (fds,conns) := writeClients message outcome rest conns
        (fd :: fds,conns)

/-- The second `for`, which takes the clients marked -1 out of the list. -/
def unlinkClosed : List Int → List Int
  | [] => []
  | fd :: rest => if fd < 0 then unlinkClosed rest else fd :: unlinkClosed rest

namespace Lirc

def processnewclient (l : Lirc) (fd : Int) : Lirc :=
  if fd < 0 then l else ⟨fd :: l.clients,l.conns ++ [⟨fd,true,[],0⟩]⟩

def processevent (l : Lirc) (message : List UInt8) (outcome : Int → Option Nat) : Lirc :=
  let (fds,conns) := writeClients message outcome l.clients l.conns
  ⟨unlinkClosed fds,conns⟩

/-- `accept` does not return a descriptor that is open. -/
def step (l : Lirc) : Call → Option (Lirc × List Empty)
  | .processnewclient fd =>
      if l.conns.any (fun c => c.isOpen && c.fd == fd) then none
      else some (l.processnewclient fd,[])
  | .processevent message outcome => some (l.processevent message outcome,[])

end Lirc

def messagesStep (ms : List (List (List UInt8))) : Call → List (List (List UInt8))
  | .processnewclient fd => if fd < 0 then ms else ms ++ [[]]
  | .processevent message _ => ms.map (· ++ [message])

def messagesSince (calls : List Call) : List (List (List UInt8)) := calls.foldl messagesStep []

theorem messagesSince_snoc (calls : List Call) (a : Call) :
    messagesSince (calls ++ [a]) = messagesStep (messagesSince calls) a := by
  simp [messagesSince]

/-- What became of a connection, given the messages since its accept. -/
inductive Conn.Served (clients : List Int) (c : Conn) (ms : List (List UInt8)) : Prop where
  | listed (ho : c.isOpen = true) (hm : c.fd ∈ clients) (hr : c.received = ms.flatten)
      (hc : c.closes = 0)
  | dropped (ho : c.isOpen = false) (before : List (List UInt8)) (failed : List UInt8)
      (after : List (List UInt8)) (hms : ms = before ++ failed :: after) (part : List UInt8)
      (hpre : part <+: failed) (hproper : part = [] ∨ part ≠ failed)
      (hr : c.received = before.flatten ++ part) (hc : c.closes = 1)

def openFds (conns : List Conn) : List Int := (conns.filter (·.isOpen)).map (·.fd)

/-- The list holds the open connections, newest first, under distinct descriptors. -/
structure Lirc.Listed (l : Lirc) : Prop where
  clients : l.clients = (openFds l.conns).reverse
  distinct : l.clients.Nodup
  nonneg : ∀ fd ∈ l.clients, 0 ≤ fd

def intMax : Nat := 2 ^ 31 - 1

theorem len_eq {message : List UInt8} (h : message.length ≤ intMax) :
    len message = message.length := by
  simp only [len,toInt32,intMax] at *
  rw [Int.bmod_eq_of_le] <;> omega

theorem count_eq {message : List UInt8} (h : message.length ≤ intMax) :
    count message = message.length := by
  rw [count,len_eq h]
  simp only [intMax] at h
  omega

theorem write_spec {message : List UInt8} (h : message.length ≤ intMax) (o : Option Nat) :
    ((write message o).1 = len message → (write message o).2 = message) ∧
      ((write message o).1 ≠ len message → (write message o).2 <+: message ∧
        ((write message o).2 = [] ∨ (write message o).2 ≠ message)) := by
  rw [len_eq h]
  cases o with
  | none =>
    refine ⟨fun hr => ?_,fun _ => ⟨List.nil_prefix,.inl rfl⟩⟩
    simp only [write] at hr
    omega
  | some n =>
    simp only [write,count_eq h]
    refine ⟨fun hr => List.take_of_length_le (by omega),fun hr => ⟨List.take_prefix _ _,.inr ?_⟩⟩
    intro heq
    have hlen := congrArg List.length heq
    rw [List.length_take] at hlen
    omega

def failed (message : List UInt8) (outcome : Int → Option Nat) (fd : Int) : Bool :=
  (write message (outcome fd)).1 != len message

def Conn.deliver (message : List UInt8) (outcome : Int → Option Nat) (c : Conn) : Conn :=
  let c' := c.receive (write message (outcome c.fd)).2
  if failed message outcome c.fd then c'.close else c'

theorem Conn.deliver_isOpen (message : List UInt8) (outcome : Int → Option Nat) (c : Conn)
    (ho : c.isOpen = true) : (c.deliver message outcome).isOpen = !failed message outcome c.fd := by
  unfold deliver
  cases failed message outcome c.fd <;> simp [close,receive,ho]

theorem Conn.deliver_fd (message : List UInt8) (outcome : Int → Option Nat) (c : Conn) :
    (c.deliver message outcome).fd = c.fd := by
  unfold deliver
  cases failed message outcome c.fd <;> rfl

theorem atFd_deliver (message : List UInt8) (outcome : Int → Option Nat) (conns : List Conn)
    (fd : Int) : (if failed message outcome fd then
        atFd (atFd conns fd (Conn.receive (write message (outcome fd)).2)) fd Conn.close
      else atFd conns fd (Conn.receive (write message (outcome fd)).2)) =
        atFd conns fd (Conn.deliver message outcome) := by
  cases hf : failed message outcome fd
  · simp only [atFd,Bool.false_eq_true,if_false]
    refine List.map_congr_left fun c _ => ?_
    by_cases h : c.isOpen = true ∧ c.fd = fd
    · rw [if_pos h,if_pos h,Conn.deliver,h.2,hf]
      rfl
    · rw [if_neg h,if_neg h]
  · simp only [atFd,if_true,List.map_map]
    refine List.map_congr_left fun c _ => ?_
    by_cases h : c.isOpen = true ∧ c.fd = fd
    · simp [Conn.deliver,Conn.receive,h.1,h.2,hf]
    · simp only [Function.comp_apply,if_neg h]

theorem writeClients_eq (message : List UInt8) (outcome : Int → Option Nat) (fds : List Int)
    (conns : List Conn) (hnd : fds.Nodup) : writeClients message outcome fds conns =
      (fds.map (fun fd => if failed message outcome fd then -1 else fd),
        conns.map (fun c => if c.isOpen = true ∧ c.fd ∈ fds then c.deliver message outcome
          else c)) := by
  induction fds generalizing conns with
  | nil => simp [writeClients]
  | cons fd rest ih =>
    obtain ⟨hfd,hrest⟩ := List.nodup_cons.mp hnd
    have hturn : writeClients message outcome (fd :: rest) conns =
        ((if failed message outcome fd then -1 else fd) ::
          (writeClients message outcome rest
            (atFd conns fd (Conn.deliver message outcome))).1,
          (writeClients message outcome rest
            (atFd conns fd (Conn.deliver message outcome))).2) := by
      rw [← atFd_deliver,writeClients]
      cases hf : failed message outcome fd
      · have heq : (write message (outcome fd)).1 = len message := by simpa [failed] using hf
        simp [heq]
      · have hne : (write message (outcome fd)).1 ≠ len message := by simpa [failed] using hf
        simp [hne]
    rw [hturn,ih _ hrest]
    refine Prod.ext rfl ?_
    simp only [atFd,List.map_map]
    refine List.map_congr_left fun c _ => ?_
    by_cases h : c.isOpen = true ∧ c.fd = fd
    · -- the connection just served: the rest of the loop does not reach it again
      have hout : (c.deliver message outcome).fd ∉ rest := by
        rw [Conn.deliver_fd,h.2]
        exact hfd
      simp [h,hout]
    · by_cases ho : c.isOpen = true
      · have hne : c.fd ≠ fd := fun he => h ⟨ho,he⟩
        simp [ho,hne]
      · simp [ho]

theorem unlinkClosed_marked (message : List UInt8) (outcome : Int → Option Nat)
    (fds : List Int) (hpos : ∀ fd ∈ fds, 0 ≤ fd) :
    unlinkClosed (fds.map (fun fd => if failed message outcome fd then -1 else fd)) =
      fds.filter (fun fd => !failed message outcome fd) := by
  induction fds with
  | nil => rfl
  | cons fd rest ih =>
    have hi := ih fun x hx => hpos x (by simp [hx])
    have h0 := hpos fd (by simp)
    cases hf : failed message outcome fd
    · simp [unlinkClosed,hf,hi,Int.not_lt.mpr h0]
    · simp [unlinkClosed,hf,hi]

namespace Lirc

theorem processevent_eq {l : Lirc} (h : l.Listed) (message : List UInt8)
    (outcome : Int → Option Nat) : l.processevent message outcome =
      ⟨l.clients.filter (fun fd => !failed message outcome fd),
        l.conns.map (fun c => if c.isOpen = true ∧ c.fd ∈ l.clients
          then c.deliver message outcome else c)⟩ := by
  unfold processevent
  rw [writeClients_eq message outcome l.clients l.conns h.distinct]
  simp only [unlinkClosed_marked message outcome l.clients h.nonneg]

theorem Listed.mem_iff {l : Lirc} (h : l.Listed) (fd : Int) :
    fd ∈ l.clients ↔ ∃ c ∈ l.conns, c.isOpen = true ∧ c.fd = fd := by
  rw [h.clients]
  simp [openFds,and_assoc]

end Lirc

theorem openFds_deliver (message : List UInt8) (outcome : Int → Option Nat) (fds : List Int)
    (conns : List Conn) (h : ∀ c ∈ conns, c.isOpen = true → c.fd ∈ fds) :
    openFds (conns.map (fun c => if c.isOpen = true ∧ c.fd ∈ fds
      then c.deliver message outcome else c)) =
        (openFds conns).filter (fun fd => !failed message outcome fd) := by
  induction conns with
  | nil => rfl
  | cons c conns ih =>
    have hi := ih fun d hd => h d (by simp [hd])
    have hc := h c (by simp)
    unfold openFds at *
    cases ho : c.isOpen with
    | false => simpa [ho] using hi
    | true =>
      have hd := c.deliver_isOpen message outcome ho
      cases hf : failed message outcome c.fd <;>
        simpa [ho,hc ho,hd,hf,Conn.deliver_fd] using hi

theorem Lirc.Listed.processevent {l : Lirc} (h : l.Listed) (message : List UInt8)
    (outcome : Int → Option Nat) : (l.processevent message outcome).Listed := by
  rw [l.processevent_eq h]
  refine ⟨?_,h.distinct.filter _,fun fd hfd => h.nonneg fd (List.mem_filter.mp hfd).1⟩
  rw [openFds_deliver message outcome l.clients l.conns
    (fun c hc ho => (h.mem_iff c.fd).mpr ⟨c,hc,ho,rfl⟩),← List.filter_reverse,← h.clients]

theorem Lirc.Listed.processnewclient {l : Lirc} (h : l.Listed) {fd : Int}
    (hfree : l.conns.any (fun c => c.isOpen && c.fd == fd) = false) :
    (l.processnewclient fd).Listed := by
  unfold Lirc.processnewclient
  by_cases hneg : fd < 0
  · rw [if_pos hneg]
    exact h
  · rw [if_neg hneg]
    have hnew : fd ∉ l.clients := by
      rw [h.mem_iff]
      rintro ⟨c,hc,ho,hfd⟩
      have hn := List.any_eq_false.mp hfree c hc
      simp [ho,hfd] at hn
    refine ⟨?_,List.nodup_cons.mpr ⟨hnew,h.distinct⟩,?_⟩
    · simp [openFds,h.clients]
    · intro d hd
      rcases List.mem_cons.mp hd with rfl | hd
      · omega
      · exact h.nonneg d hd

theorem Conn.Served.deliver {clients : List Int} {c : Conn} {ms : List (List UInt8)}
    {message : List UInt8} (h : c.Served clients ms) (hlen : message.length ≤ intMax)
    (outcome : Int → Option Nat) :
    (if c.isOpen = true ∧ c.fd ∈ clients then c.deliver message outcome else c).Served
      (clients.filter (fun fd => !failed message outcome fd)) (ms ++ [message]) := by
  obtain ⟨hfull,hpart⟩ := write_spec hlen (outcome c.fd)
  cases h with
  | listed ho hm hr hc =>
    rw [if_pos ⟨ho,hm⟩]
    cases hf : failed message outcome c.fd with
    | false =>
      have hw := hfull (by simpa [failed] using hf)
      simp only [Conn.deliver,hf,Bool.false_eq_true,if_false]
      refine .listed ho ?_ ?_ hc
      · exact List.mem_filter.mpr ⟨hm,by simpa [Conn.receive] using hf⟩
      · simp [Conn.receive,hr,hw]
    | true =>
      obtain ⟨hpre,hproper⟩ := hpart (by simpa [failed] using hf)
      simp only [Conn.deliver,hf,if_true]
      refine .dropped rfl ms message [] rfl _ hpre hproper ?_ ?_
      · simp [Conn.close,Conn.receive,hr]
      · simp [Conn.close,Conn.receive,hc]
  | dropped ho before failed after hms part hpre hproper hr hc =>
    rw [if_neg (by simp [ho])]
    exact .dropped ho before failed (after ++ [message]) (by simp [hms]) part hpre hproper hr hc

theorem Conn.Served.mono {clients : List Int} {c : Conn} {ms : List (List UInt8)} (fd : Int)
    (h : c.Served clients ms) : c.Served (fd :: clients) ms := by
  cases h with
  | listed ho hm hr hc => exact .listed ho (List.mem_cons_of_mem _ hm) hr hc
  | dropped ho before failed after hms part hpre hproper hr hc =>
    exact .dropped ho before failed after hms part hpre hproper hr hc

def Call.fits : Call → Prop
  | .processnewclient _ => True
  | .processevent message _ => message.length ≤ intMax

theorem Lirc.step_cases {l l' : Lirc} {a : Call} {es : List Empty}
    (hs : l.step a = some (l',es)) :
    (∃ fd, a = .processnewclient fd ∧ l' = l.processnewclient fd ∧
        l.conns.any (fun c => c.isOpen && c.fd == fd) = false) ∨
      ∃ message outcome, a = .processevent message outcome ∧
        l' = l.processevent message outcome := by
  cases a with
  | processnewclient fd =>
    cases hfree : l.conns.any (fun c => c.isOpen && c.fd == fd) with
    | true => simp [step,hfree] at hs
    | false =>
      simp only [step,hfree,Bool.false_eq_true,if_false,Option.some.injEq] at hs
      obtain ⟨rfl,rfl⟩ := Prod.mk.inj hs
      exact .inl ⟨fd,rfl,rfl,hfree⟩
  | processevent message outcome =>
    obtain ⟨rfl,rfl⟩ := Prod.mk.inj (Option.some.inj hs)
    exact .inr ⟨message,outcome,rfl,rfl⟩

theorem Lirc.Listed.step {l l' : Lirc} {a : Call} {es : List Empty} (h : l.Listed)
    (hs : l.step a = some (l',es)) : l'.Listed := by
  rcases Lirc.step_cases hs with ⟨fd,_,rfl,hfree⟩ | ⟨message,outcome,_,rfl⟩
  · exact h.processnewclient hfree
  · exact h.processevent message outcome

theorem Lirc.step_served {l l' : Lirc} {calls : List Call} {a : Call} {es : List Empty}
    (hlist : l.Listed)
    (hserved : List.Forall₂ (Conn.Served l.clients) l.conns (messagesSince calls))
    (hfit : a.fits) (hs : l.step a = some (l',es)) :
    List.Forall₂ (Conn.Served l'.clients) l'.conns (messagesSince (calls ++ [a])) := by
  rw [messagesSince_snoc]
  rcases Lirc.step_cases hs with ⟨fd,rfl,rfl,_⟩ | ⟨message,outcome,rfl,rfl⟩
  · unfold Lirc.processnewclient messagesStep
    by_cases hneg : fd < 0
    · simpa [hneg] using hserved
    · simp only [hneg,if_false]
      refine List.rel_append (hserved.imp fun c ms hc => hc.mono fd) (.cons ?_ .nil)
      exact .listed rfl (by simp) rfl rfl
  · rw [l.processevent_eq hlist]
    simp only [messagesStep,List.forall₂_map_left_iff,List.forall₂_map_right_iff]
    exact hserved.imp fun c ms hc => hc.deliver hfit outcome

/-- A closed connection is out of reach, also of clients under its old number. -/
theorem Lirc.step_closed {l l' : Lirc} {a : Call} {es : List Empty} (hlist : l.Listed)
    (hs : l.step a = some (l',es)) {i : Nat} {c : Conn} (hc : l.conns[i]? = some c)
    (ho : c.isOpen = false) : l'.conns[i]? = some c := by
  rcases Lirc.step_cases hs with ⟨fd,_,rfl,_⟩ | ⟨message,outcome,_,rfl⟩
  · unfold Lirc.processnewclient
    split
    · exact hc
    · exact List.getElem?_append_left (List.getElem?_eq_some_iff.mp hc).1 ▸ hc
  · rw [l.processevent_eq hlist,List.getElem?_map,hc]
    simp [ho]

theorem Lirc.initial_listed : Lirc.initial.Listed :=
  ⟨rfl,List.nodup_nil,by simp [Lirc.initial]⟩

section Runs

variable {calls : List Call} {l : Lirc} {tr : List Empty}

theorem run_listed (hr : run Lirc.step .initial calls = some (l,tr)) : l.Listed :=
  invariant (I := fun l _ => Lirc.Listed l) (fun _ _ _ _ _ hI hs => hI.step hs)
    Lirc.initial_listed hr

/-- Over any accepts and messages, with descriptors reused: the list is in order,
each connection got every message since its accept up to the one that failed, and
nothing reaches it after its one close. -/
theorem clients_served (hr : run Lirc.step .initial calls = some (l,tr))
    (hfit : ∀ a ∈ calls, a.fits) :
    l.Listed ∧ List.Forall₂ (Conn.Served l.clients) l.conns (messagesSince calls) ∧
      ∀ more l' tr', run Lirc.step l more = some (l',tr') →
        ∀ (i : Nat) (c : Conn), l.conns[i]? = some c → c.isOpen = false →
          l'.conns[i]? = some c := by
  have hlist := run_listed hr
  refine ⟨hlist,?_,fun more l' tr' hmore i c hc ho => ?_⟩
  · have hI : l.Listed ∧ List.Forall₂ (Conn.Served l.clients) l.conns (messagesSince calls) :=
      actions_of_everyStep (G := fun _ a => Call.fits a)
        (I := fun l calls => Lirc.Listed l ∧
          List.Forall₂ (Conn.Served l.clients) l.conns (messagesSince calls))
        (fun s as a t es hI hg hs => ⟨hI.1.step hs,Lirc.step_served hI.1 hI.2 hg hs⟩)
        ⟨Lirc.initial_listed,.nil⟩ (everyStep_of_forall _ hfit) hr
    exact hI.2
  · have hI : l'.Listed ∧ l'.conns[i]? = some c :=
      invariant (I := fun l _ => Lirc.Listed l ∧ l.conns[i]? = some c)
        (fun s tr a t es hI hs => ⟨hI.1.step hs,Lirc.step_closed hI.1 hs hI.2 ho⟩)
        ⟨hlist,hc⟩ hmore
    exact hI.2

end Runs

theorem clients_served_reused :
    ∃ l tr, run Lirc.step .initial
        [.processnewclient 5,.processnewclient 6,.processevent [97,10] (fun _ => some 2),
          .processevent [98,10] (fun fd => if fd = 5 then some 1 else some 2),
          .processnewclient 5,.processevent [99,10] (fun _ => some 2)] = some (l,tr) ∧
      l = ⟨[5,6],[⟨5,false,[97,10,98],1⟩,⟨6,true,[97,10,98,10,99,10],0⟩,⟨5,true,[99,10],0⟩]⟩ ∧
      l.Listed := by
  have h : (run Lirc.step .initial
        [.processnewclient 5,.processnewclient 6,.processevent [97,10] (fun _ => some 2),
          .processevent [98,10] (fun fd => if fd = 5 then some 1 else some 2),
          .processnewclient 5,.processevent [99,10] (fun _ => some 2)]).map Prod.fst =
      some ⟨[5,6],[⟨5,false,[97,10,98],1⟩,⟨6,true,[97,10,98,10,99,10],0⟩,
        ⟨5,true,[99,10],0⟩]⟩ := by decide
  obtain ⟨⟨l,tr⟩,hr,rfl⟩ := Option.map_eq_some_iff.mp h
  exact ⟨_,tr,hr,rfl,(clients_served hr (by simp [Call.fits,intMax])).1⟩

/-- A message whose length is 0 as an `int` is lost without an error. -/
theorem lost_of_len_eq_zero {message : List UInt8} (hlen : len message = 0)
    (hne : message ≠ []) : ∃ l tr, run Lirc.step .initial
        [.processnewclient 5,.processevent message (fun _ => some 0)] = some (l,tr) ∧
      5 ∈ l.clients ∧ ¬ List.Forall₂ (Conn.Served l.clients) l.conns
        (messagesSince [.processnewclient 5,.processevent message (fun _ => some 0)]) := by
  have hw : write message (some 0) = (0,[]) := by simp [write]
  have hf : failed message (fun _ => some 0) 5 = false := by simp [failed,hw,hlen]
  have hlist : (Lirc.mk [5] [⟨5,true,[],0⟩]).Listed := ⟨rfl,by simp,by simp⟩
  have hevent : (Lirc.mk [5] [⟨5,true,[],0⟩]).processevent message (fun _ => some 0) =
      ⟨[5],[⟨5,true,[],0⟩]⟩ := by
    rw [Lirc.processevent_eq hlist]
    simp [hf,Conn.deliver,Conn.receive,hw]
  have hrun : run Lirc.step .initial
      [.processnewclient 5,.processevent message (fun _ => some 0)] =
        some (⟨[5],[⟨5,true,[],0⟩]⟩,[]) := by
    refine run_cons_iff.mpr ⟨⟨[5],[⟨5,true,[],0⟩]⟩,[],[],rfl,run_singleton_iff.mpr ?_,rfl⟩
    rw [Lirc.step,hevent]
  refine ⟨_,_,hrun,by simp,?_⟩
  intro hall
  have hms : messagesSince [.processnewclient 5,.processevent message (fun _ => some 0)] =
      [[message]] := rfl
  rw [hms] at hall
  cases hall with
  | cons hserved _ =>
    cases hserved with
    | listed ho hm hr hc =>
      simp only [List.flatten_cons,List.flatten_nil,List.append_nil] at hr
      exact hne hr.symm
    | dropped ho => simp at ho

theorem len_replicate_wraps {n : Nat} (h : (2 ^ 32 : Int) ∣ n) (b : UInt8) :
    len (List.replicate n b) = 0 := by
  rw [len,List.length_replicate]
  exact Int.bmod_eq_zero_of_dvd h

theorem long_message_lost :
    ∃ l tr, run Lirc.step .initial [.processnewclient 5,
        .processevent (List.replicate (2 ^ 32) 97) (fun _ => some 0)] = some (l,tr) ∧
      5 ∈ l.clients ∧ ¬ List.Forall₂ (Conn.Served l.clients) l.conns
        (messagesSince [.processnewclient 5,
          .processevent (List.replicate (2 ^ 32) 97) (fun _ => some 0)]) :=
  lost_of_len_eq_zero (len_replicate_wraps (by decide) 97)
    (List.ne_nil_of_length_pos (by rw [List.length_replicate]; exact Nat.two_pow_pos 32))

end Ceclircd
