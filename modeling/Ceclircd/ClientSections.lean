import Ceclircd.HeapRuns
import Ceclircd.Sections
set_option autoImplicit false

/-! `lirc_sync` statement by statement: `processnewclient` and `processevent` on any threads,
over the records and the connections that the calls of `HeapCall` take as a whole. -/

namespace Ceclircd
open RunTrace PointerChain Sections

/-- What `lirc_sync` protects, and the connections behind the descriptors. -/
structure ClientMemory where
  heap : ClientHeap
  conns : List Conn

def ClientMemory.withNodes (s : ClientMemory) (nodes : Heap Nat ClientNode) : ClientMemory :=
  ⟨⟨s.heap.clients,nodes⟩,s.conns⟩

/-- The statements of the two sections, each with the local variables that are still read.
`newclient` and `fd` are what `malloc` and `accept` return, `outcome` is what `write` does.
Where `malloc` fails, `xalloc` throws and nobody unlocks; that is left out. -/
inductive Statement where
  | xalloc (newclient : Nat) (fd : Int)
  | accept (newclient : Nat) (fd : Int)
  | testAccepted (newclient : Nat)
  | freeNewclient (newclient : Nat)
  | fcntl (newclient : Nat)
  | setNext (newclient : Nat)
  | setClients (newclient : Nat)
  | firstFor (message : List UInt8) (outcome : Int → Option Nat)
  | write (message : List UInt8) (outcome : Int → Option Nat) (client : Option Nat)
  | close (message : List UInt8) (outcome : Int → Option Nat) (client : Nat)
  | markClosed (message : List UInt8) (outcome : Int → Option Nat) (client : Nat)
  | toNext (message : List UInt8) (outcome : Int → Option Nat) (client : Nat)
  | secondFor
  | readNext (prev client : Option Nat)
  | testClosed (prev : Option Nat) (client : Nat) (next : Option Nat)
  | unlink (prev : Option Nat) (client : Nat) (next : Option Nat)
  | free (prev : Option Nat) (client : Nat) (next : Option Nat)

namespace ClientMemory

/-- `none` is an access to a record that is not allocated. -/
def exec (s : ClientMemory) :
    Statement → Option (ClientMemory × Option Statement × List HeapEvent)
  | .xalloc newclient fd =>
    some (s.withNodes (Function.update s.heap.nodes newclient (some ⟨0,none⟩)),
      some (.accept newclient fd),[])
  | .accept newclient fd => do
    let node ← s.heap.nodes newclient
    let nodes ← s.heap.nodes.store newclient { node with fd }
    let conns := if fd < 0 then s.conns else s.conns ++ [⟨fd,true,[],0⟩]
    some ({ s.withNodes nodes with conns },some (.testAccepted newclient),[])
  | .testAccepted newclient => do
    let node ← s.heap.nodes newclient
    some (s,some (if node.fd < 0 then .freeNewclient newclient else .fcntl newclient),[])
  | .freeNewclient newclient => do
    let nodes ← s.heap.nodes.free newclient
    some (s.withNodes nodes,none,[.free newclient])
  | .fcntl newclient => do
    let _ ← s.heap.nodes newclient
    some (s,some (.setNext newclient),[])
  | .setNext newclient => do
    let node ← s.heap.nodes newclient
    let nodes ← s.heap.nodes.store newclient { node with next := s.heap.clients }
    some (s.withNodes nodes,some (.setClients newclient),[])
  | .setClients newclient =>
    some ({ s with heap := ⟨some newclient,s.heap.nodes⟩ },none,[])
  | .firstFor message outcome => some (s,some (.write message outcome s.heap.clients),[])
  | .write _ _ none => some (s,some .secondFor,[])
  | .write message outcome (some client) => do
    let node ← s.heap.nodes client
    let (ret,bytes) := Ceclircd.write message (outcome node.fd)
    let conns := atFd s.conns node.fd (Conn.receive bytes)
    some ({ s with conns },
      some (if ret ≠ len message then .close message outcome client
        else .toNext message outcome client),[])
  | .close message outcome client => do
    let node ← s.heap.nodes client
    let conns := atFd s.conns node.fd Conn.close
    some ({ s with conns },some (.markClosed message outcome client),[.close node.fd])
  | .markClosed message outcome client => do
    let node ← s.heap.nodes client
    let nodes ← s.heap.nodes.store client { node with fd := -1 }
    some (s.withNodes nodes,some (.toNext message outcome client),[])
  | .toNext message outcome client => do
    let node ← s.heap.nodes client
    some (s,some (.write message outcome node.next),[])
  | .secondFor => some (s,some (.readNext none s.heap.clients),[])
  | .readNext _ none => some (s,none,[])
  | .readNext prev (some client) => do
    let node ← s.heap.nodes client
    some (s,some (.testClosed prev client node.next),[])
  | .testClosed prev client next => do
    let node ← s.heap.nodes client
    some (s,some (if node.fd < 0 then .unlink prev client next
      else .readNext (some client) next),[])
  | .unlink prev client next => do
    let heap ← s.heap.unlink prev client
    some ({ s with heap },some (.free prev client next),[])
  | .free prev client next => do
    let nodes ← s.heap.nodes.free client
    some (s.withNodes nodes,some (.readNext prev next),[.free client])

/-- `malloc` gives out no record that is allocated, and `accept` no descriptor that is open. -/
def sound (s : ClientMemory) : Statement → Prop
  | .xalloc newclient _ => s.heap.nodes newclient = none
  | .accept _ fd => s.conns.any (fun c => c.isOpen && c.fd == fd) = false
  | _ => True

instance (s : ClientMemory) (p : Statement) : Decidable (s.sound p) := by
  cases p with
  | xalloc newclient fd => exact inferInstanceAs (Decidable (s.heap.nodes newclient = none))
  | accept newclient fd => exact inferInstanceAs (Decidable (_ = false))
  | _ => exact inferInstanceAs (Decidable True)

end ClientMemory

def HeapCall.start : HeapCall → Statement
  | .processnewclient newclient fd => .xalloc newclient fd
  | .processevent message outcome => .firstFor message outcome

def clientCode : Code ClientMemory HeapCall Statement HeapEvent := ⟨HeapCall.start,ClientMemory.exec⟩

abbrev ClientMemory.Unlocks (s : ClientMemory) (p : Statement) (t : ClientMemory)
    (es : List HeapEvent) : Prop := Ends clientCode (fun _ _ => True) s p t es

/-! The loops of `processevent`. -/

theorem freeLoop_none (fuel : Nat) (heap : ClientHeap) (prev : Option Nat) :
    freeLoop fuel heap prev none = some (heap,[]) := by
  cases fuel <;> rfl

theorem unlocks_readNext {fuel : Nat} {heap t : ClientHeap} {prev client : Option Nat}
    {es : List HeapEvent} (conns : List Conn)
    (h : freeLoop fuel heap prev client = some (t,es)) :
    ClientMemory.Unlocks ⟨heap,conns⟩ (.readNext prev client) ⟨t,conns⟩ es := by
  induction fuel generalizing heap prev client es with
  | zero =>
    cases client with
    | none =>
      rw [freeLoop_none,Option.some.injEq,Prod.mk.injEq] at h
      obtain ⟨rfl,rfl⟩ := h
      exact .last trivial rfl
    | some client => simp [freeLoop] at h
  | succ fuel ih =>
    cases client with
    | none =>
      rw [freeLoop_none,Option.some.injEq,Prod.mk.injEq] at h
      obtain ⟨rfl,rfl⟩ := h
      exact .last trivial rfl
    | some client =>
      simp only [freeLoop,Option.bind_eq_bind,Option.bind_eq_some_iff] at h
      obtain ⟨node,hnode,h⟩ := h
      have hread : clientCode.stmt ⟨heap,conns⟩ (.readNext prev (some client)) =
          some (⟨heap,conns⟩,some (.testClosed prev client node.next),[]) := by
        simp [clientCode,ClientMemory.exec,hnode]
      refine .silent trivial hread ?_
      by_cases hclosed : node.fd < 0
      · simp only [if_pos hclosed,Option.bind_eq_some_iff] at h
        obtain ⟨u,hu,nodes,hfree,⟨v,fs⟩,hrest,h⟩ := h
        simp only [Option.some.injEq,Prod.mk.injEq] at h
        obtain ⟨rfl,rfl⟩ := h
        have htest : clientCode.stmt ⟨heap,conns⟩ (.testClosed prev client node.next) =
            some (⟨heap,conns⟩,some (.unlink prev client node.next),[]) := by
          simp [clientCode,ClientMemory.exec,hnode,hclosed]
        have hunlink : clientCode.stmt ⟨heap,conns⟩ (.unlink prev client node.next) =
            some (⟨u,conns⟩,some (.free prev client node.next),[]) := by
          simp [clientCode,ClientMemory.exec,hu]
        have hdrop : clientCode.stmt ⟨u,conns⟩ (.free prev client node.next) =
            some (⟨⟨u.clients,nodes⟩,conns⟩,some (.readNext prev node.next),[.free client]) := by
          simp [clientCode,ClientMemory.exec,ClientMemory.withNodes,hfree]
        exact .silent trivial htest (.silent trivial hunlink (.next trivial hdrop (ih hrest)))
      · rw [if_neg hclosed] at h
        have htest : clientCode.stmt ⟨heap,conns⟩ (.testClosed prev client node.next) =
            some (⟨heap,conns⟩,some (.readNext (some client) node.next),[]) := by
          simp [clientCode,ClientMemory.exec,hnode,hclosed]
        exact .silent trivial htest (ih h)

theorem writeLoop_none (message : List UInt8) (out : Nat → Option Nat) (fuel : Nat)
    (nodes : Heap Nat ClientNode) : writeLoop message out fuel nodes none = some (nodes,[]) := by
  cases fuel <;> rfl

section Turns

variable {message : List UInt8} {outcome : Int → Option Nat} {first : Option Nat}
  {nodes : Heap Nat ClientNode} {conns : List Conn} {a : Nat} {node : ClientNode} {ret : Int}
  {bytes : List UInt8} {t : ClientMemory} {es : List HeapEvent}

theorem unlocks_write_kept (hnode : nodes a = some node)
    (hw : Ceclircd.write message (outcome node.fd) = (ret,bytes)) (hret : ret = len message)
    (h : ClientMemory.Unlocks ⟨⟨first,nodes⟩,atFd conns node.fd (Conn.receive bytes)⟩
      (.write message outcome node.next) t es) :
    ClientMemory.Unlocks ⟨⟨first,nodes⟩,conns⟩ (.write message outcome (some a)) t es := by
  have hwrite : clientCode.stmt ⟨⟨first,nodes⟩,conns⟩ (.write message outcome (some a)) =
      some (⟨⟨first,nodes⟩,atFd conns node.fd (Conn.receive bytes)⟩,
        some (.toNext message outcome a),[]) := by
    simp [clientCode,ClientMemory.exec,hnode,hw,hret]
  have hnext : clientCode.stmt ⟨⟨first,nodes⟩,atFd conns node.fd (Conn.receive bytes)⟩
      (.toNext message outcome a) = some (⟨⟨first,nodes⟩,atFd conns node.fd (Conn.receive bytes)⟩,
        some (.write message outcome node.next),[]) := by
    simp [clientCode,ClientMemory.exec,hnode]
  exact .silent trivial hwrite (.silent trivial hnext h)

theorem unlocks_write_failed (hnode : nodes a = some node)
    (hw : Ceclircd.write message (outcome node.fd) = (ret,bytes)) (hret : ret ≠ len message)
    (h : ClientMemory.Unlocks ⟨⟨first,Function.update nodes a (some { node with fd := -1 })⟩,
      atFd (atFd conns node.fd (Conn.receive bytes)) node.fd Conn.close⟩
        (.write message outcome node.next) t es) :
    ClientMemory.Unlocks ⟨⟨first,nodes⟩,conns⟩ (.write message outcome (some a)) t
      (.close node.fd :: es) := by
  have hwrite : clientCode.stmt ⟨⟨first,nodes⟩,conns⟩ (.write message outcome (some a)) =
      some (⟨⟨first,nodes⟩,atFd conns node.fd (Conn.receive bytes)⟩,
        some (.close message outcome a),[]) := by
    simp [clientCode,ClientMemory.exec,hnode,hw,hret]
  have hclose : ∀ conns, clientCode.stmt ⟨⟨first,nodes⟩,conns⟩ (.close message outcome a) =
      some (⟨⟨first,nodes⟩,atFd conns node.fd Conn.close⟩,
        some (.markClosed message outcome a),[.close node.fd]) := by
    simp [clientCode,ClientMemory.exec,hnode]
  have hmark : ∀ conns, clientCode.stmt ⟨⟨first,nodes⟩,conns⟩ (.markClosed message outcome a) =
      some (⟨⟨first,Function.update nodes a (some { node with fd := -1 })⟩,conns⟩,
        some (.toNext message outcome a),[]) := by
    simp [clientCode,ClientMemory.exec,ClientMemory.withNodes,hnode,Heap.store_eq hnode]
  have hnext : ∀ conns, clientCode.stmt
      ⟨⟨first,Function.update nodes a (some { node with fd := -1 })⟩,conns⟩
        (.toNext message outcome a) =
      some (⟨⟨first,Function.update nodes a (some { node with fd := -1 })⟩,conns⟩,
        some (.write message outcome node.next),[]) := by
    simp [clientCode,ClientMemory.exec]
  have hmarked : ClientMemory.Unlocks
      ⟨⟨first,nodes⟩,atFd (atFd conns node.fd (Conn.receive bytes)) node.fd Conn.close⟩
      (.markClosed message outcome a) t es :=
    .silent trivial (hmark _) (.silent trivial (hnext _) h)
  exact .silent trivial hwrite (.next trivial (hclose _) hmarked)

end Turns

/-- The first loop, over records whose descriptors are `fds`, serves these connections. -/
theorem unlocks_write {message : List UInt8} {outcome : Int → Option Nat}
    {out : Nat → Option Nat} {first : Option Nat} {l : List Nat} {nodes nodes' : Heap Nat ClientNode}
    {p : Option Nat} {fds : List Int} {conns : List Conn} {fuel : Nat} {t : ClientMemory}
    {es fs : List HeapEvent} (hl : Chain ClientNode.next nodes p l)
    (hfds : l.map (fdAt nodes) = fds.map some) (hout : ∀ c ∈ l, out c = (fdAt nodes c).bind outcome)
    (h : writeLoop message out fuel nodes p = some (nodes',es))
    (hrest : ClientMemory.Unlocks ⟨⟨first,nodes'⟩,(writeClients message outcome fds conns).2⟩
      .secondFor t fs) :
    ClientMemory.Unlocks ⟨⟨first,nodes⟩,conns⟩ (.write message outcome p) t (es ++ fs) := by
  induction l generalizing nodes p fds conns fuel es with
  | nil =>
    obtain rfl := Segment.nil_iff.mp hl
    obtain rfl : fds = [] := by simpa using hfds.symm
    rw [writeLoop_none,Option.some.injEq,Prod.mk.injEq] at h
    obtain ⟨rfl,rfl⟩ := h
    exact .silent trivial rfl hrest
  | cons a l ih =>
    have hal : a ∉ l := (List.nodup_cons.mp (Chain.nodup hl)).1
    cases hl with
    | @cons _ node _ _ hnode hl =>
      have hfd : fdAt nodes a = some node.fd := by rw [fdAt,hnode]; rfl
      obtain ⟨fds,rfl⟩ : ∃ rest, fds = node.fd :: rest := by
        cases fds with
        | nil => simp at hfds
        | cons fd rest =>
          rw [List.map_cons,List.map_cons,List.cons.injEq,hfd,Option.some.injEq] at hfds
          exact ⟨rest,by rw [hfds.1]⟩
      have hfds' : l.map (fdAt nodes) = fds.map some := (List.cons.inj hfds).2
      have houta : out a = outcome node.fd := by rw [hout a (by simp),hfd,Option.bind_some]
      have hout' : ∀ c ∈ l, out c = (fdAt nodes c).bind outcome :=
        fun c hc => hout c (List.mem_cons_of_mem _ hc)
      obtain ⟨fuel,rfl⟩ : ∃ k, fuel = k + 1 := by
        cases fuel with
        | zero => simp [writeLoop] at h
        | succ k => exact ⟨k,rfl⟩
      rcases hw : Ceclircd.write message (outcome node.fd) with ⟨ret,bytes⟩
      by_cases hret : ret = len message
      · have hloop : writeLoop message out fuel nodes node.next = some (nodes',es) := by
          rw [writeLoop,hnode] at h
          simpa [houta,hw,hret] using h
        have hconns : (writeClients message outcome (node.fd :: fds) conns).2 =
            (writeClients message outcome fds (atFd conns node.fd (Conn.receive bytes))).2 := by
          simp [writeClients,hw,hret]
        rw [hconns] at hrest
        exact unlocks_write_kept hnode hw hret (ih hl hfds' hout' hloop hrest)
      · -- the records to come are not the one marked
        have hsame : ∀ c ∈ l, Function.update nodes a (some { node with fd := -1 }) c = nodes c := by
          intro c hc
          refine Function.update_of_ne ?_ _ _
          rintro rfl
          exact hal hc
        have hl' := hl.frame fun c hc => congrArg (Option.map ClientNode.next) (hsame c hc)
        have hfdAt : ∀ c ∈ l, fdAt (Function.update nodes a (some { node with fd := -1 })) c =
            fdAt nodes c := fun c hc => congrArg (Option.map ClientNode.fd) (hsame c hc)
        rw [writeLoop,hnode] at h
        simp only [Option.bind_eq_bind,Option.bind_some,houta,hw,ne_eq,hret,not_false_eq_true,
          if_true,Heap.store_eq hnode,Function.update_self,Option.bind_eq_some_iff] at h
        obtain ⟨⟨nodes'',es'⟩,hloop,h⟩ := h
        simp only [Option.some.injEq,Prod.mk.injEq] at h
        obtain ⟨rfl,rfl⟩ := h
        have hconns : (writeClients message outcome (node.fd :: fds) conns).2 =
            (writeClients message outcome fds (atFd (atFd conns node.fd (Conn.receive bytes))
              node.fd Conn.close)).2 := by
          simp [writeClients,hw,hret]
        rw [hconns] at hrest
        refine unlocks_write_failed hnode hw hret (ih hl' ?_ ?_ hloop hrest)
        · rw [List.map_congr_left hfdAt,hfds']
        · intro c hc
          rw [hout' c hc,hfdAt c hc]

/-! The sections as the calls of `HeapCall` and `Call`. -/

theorem unlocks_processevent {s : ClientMemory} {l : Lirc} {calls : List HeapCall}
    {es : List HeapEvent} {records : List Nat} (h : Represents s.heap l calls es records)
    (hlist : l.Listed) (hconns : l.conns = s.conns) (message : List UInt8)
    (outcome : Int → Option Nat) :
    ∃ t fs records', s.Unlocks (.firstFor message outcome) t fs ∧
      (l.processevent message outcome).conns = t.conns ∧
      Represents t.heap (l.processevent message outcome)
        (calls ++ [.processevent message outcome]) (es ++ fs) records' := by
  obtain ⟨s,conns⟩ := s
  obtain rfl : l.conns = conns := hconns
  obtain ⟨heap,fs,records',hrun,hafter⟩ :=
    h.processevent hlist message outcome (Nat.le_refl records.length)
  simp only [ClientHeap.processevent,Option.bind_eq_bind,Option.bind_eq_some_iff] at hrun
  obtain ⟨⟨nodes,ws⟩,hwrite,⟨heap',ds⟩,hfree,hrun⟩ := hrun
  simp only [Option.some.injEq,Prod.mk.injEq] at hrun
  obtain ⟨rfl,rfl⟩ := hrun
  refine ⟨⟨heap',(l.processevent message outcome).conns⟩,ws ++ ds,records',?_,rfl,hafter⟩
  have hsecond : ClientMemory.Unlocks
      ⟨⟨s.clients,nodes⟩,(writeClients message outcome l.clients l.conns).2⟩ .secondFor
      ⟨heap',(writeClients message outcome l.clients l.conns).2⟩ ds :=
    .silent trivial rfl (unlocks_readNext _ hfree)
  exact .silent trivial rfl (unlocks_write h.chain h.fds (fun _ _ => rfl) hwrite hsecond)

theorem unlocks_fcntl (heap : ClientHeap) {newclient : Nat} {node : ClientNode} (conns : List Conn)
    (hnode : heap.nodes newclient = some node) :
    ClientMemory.Unlocks ⟨heap,conns⟩ (.fcntl newclient)
      ⟨⟨some newclient,Function.update heap.nodes newclient
        (some { node with next := heap.clients })⟩,conns⟩ [] := by
  have hfcntl : clientCode.stmt ⟨heap,conns⟩ (.fcntl newclient) =
      some (⟨heap,conns⟩,some (.setNext newclient),[]) := by
    simp [clientCode,ClientMemory.exec,hnode]
  have hnext : clientCode.stmt ⟨heap,conns⟩ (.setNext newclient) =
      some (⟨⟨heap.clients,Function.update heap.nodes newclient
        (some { node with next := heap.clients })⟩,conns⟩,some (.setClients newclient),[]) := by
    simp [clientCode,ClientMemory.exec,ClientMemory.withNodes,hnode,Heap.store_eq hnode]
  exact .silent trivial hfcntl (.silent trivial hnext (.last trivial rfl))

theorem unlocks_processnewclient {s : ClientMemory} {newclient : Nat} {fd : Int}
    {heap : ClientHeap} {es : List HeapEvent}
    (h : s.heap.processnewclient newclient fd = some (heap,es)) :
    s.Unlocks (.xalloc newclient fd)
      ⟨heap,if fd < 0 then s.conns else s.conns ++ [⟨fd,true,[],0⟩]⟩ es := by
  have hxalloc : clientCode.stmt s (.xalloc newclient fd) =
      some (s.withNodes (Function.update s.heap.nodes newclient (some ⟨0,none⟩)),
        some (.accept newclient fd),[]) := rfl
  have haccept : clientCode.stmt
      (s.withNodes (Function.update s.heap.nodes newclient (some ⟨0,none⟩))) (.accept newclient fd) =
      some (⟨⟨s.heap.clients,Function.update s.heap.nodes newclient (some ⟨fd,none⟩)⟩,
        if fd < 0 then s.conns else s.conns ++ [⟨fd,true,[],0⟩]⟩,
        some (.testAccepted newclient),[]) := by
    simp [clientCode,ClientMemory.exec,ClientMemory.withNodes,Heap.store]
  refine .silent trivial hxalloc (.silent trivial haccept ?_)
  have hnode : Function.update s.heap.nodes newclient (some (ClientNode.mk fd none)) newclient =
      some ⟨fd,none⟩ := Function.update_self _ _ _
  by_cases hneg : fd < 0
  · have hresult : ClientHeap.mk s.heap.clients (Function.update s.heap.nodes newclient none) = heap ∧
        [HeapEvent.free newclient] = es := by
      simpa [ClientHeap.processnewclient,Heap.store,Heap.free,hneg] using h
    obtain ⟨rfl,rfl⟩ := hresult
    have htest : ∀ conns, clientCode.stmt
        ⟨⟨s.heap.clients,Function.update s.heap.nodes newclient (some ⟨fd,none⟩)⟩,conns⟩
        (.testAccepted newclient) = some (⟨⟨s.heap.clients,
          Function.update s.heap.nodes newclient (some ⟨fd,none⟩)⟩,conns⟩,
            some (.freeNewclient newclient),[]) := by
      simp [clientCode,ClientMemory.exec,hneg]
    refine .silent trivial (htest _) (.last trivial ?_)
    simp [clientCode,ClientMemory.exec,ClientMemory.withNodes,Heap.free]
  · have hresult : ClientHeap.mk (some newclient) (Function.update s.heap.nodes newclient
        (some ⟨fd,s.heap.clients⟩)) = heap ∧ [] = es := by
      simpa [ClientHeap.processnewclient,Heap.store,hneg] using h
    obtain ⟨rfl,rfl⟩ := hresult
    have htest : ∀ conns, clientCode.stmt
        ⟨⟨s.heap.clients,Function.update s.heap.nodes newclient (some ⟨fd,none⟩)⟩,conns⟩
        (.testAccepted newclient) = some (⟨⟨s.heap.clients,
          Function.update s.heap.nodes newclient (some ⟨fd,none⟩)⟩,conns⟩,
            some (.fcntl newclient),[]) := by
      simp [clientCode,ClientMemory.exec,hneg]
    have hlinked := unlocks_fcntl
      ⟨s.heap.clients,Function.update s.heap.nodes newclient (some ⟨fd,none⟩)⟩
      (if fd < 0 then s.conns else s.conns ++ [⟨fd,true,[],0⟩]) hnode
    rw [Function.update_idem] at hlinked
    exact .silent trivial (htest _) hlinked

/-- The memory is as whole calls leave it, made one after the other. -/
def WholeCalls (s : ClientMemory) (calls : List HeapCall) (es : List HeapEvent) : Prop :=
  ∃ l records, run Lirc.step .initial (calls.map HeapCall.call) = some (l,[]) ∧
    l.conns = s.conns ∧ Represents s.heap l calls es records

theorem WholeCalls.snoc {calls : List HeapCall} {l l' : Lirc} {k : HeapCall}
    (hr : run Lirc.step .initial (calls.map HeapCall.call) = some (l,[]))
    (hs : l.step k.call = some (l',[])) :
    run Lirc.step .initial ((calls ++ [k]).map HeapCall.call) = some (l',[]) := by
  rw [List.map_append]
  exact run_append_iff.mpr ⟨l,[],[],hr,run_singleton_iff.mpr hs,rfl⟩

/-- What `malloc` and `accept` return in the section was unused when it was entered. -/
theorem sound_processnewclient {s t : ClientMemory} {newclient : Nat} {fd : Int}
    {es : List HeapEvent}
    (h : Ends clientCode ClientMemory.sound s (.xalloc newclient fd) t es) :
    s.heap.nodes newclient = none ∧ s.conns.any (fun c => c.isOpen && c.fd == fd) = false := by
  cases h with
  | last _ hs => simp [clientCode,ClientMemory.exec] at hs
  | next hfresh hs hrest =>
    simp only [clientCode,ClientMemory.exec,Option.some.injEq,Prod.mk.injEq] at hs
    obtain ⟨rfl,rfl,rfl⟩ := hs
    cases hrest with
    | last hfree _ => exact ⟨hfresh,hfree⟩
    | next hfree _ _ => exact ⟨hfresh,hfree⟩

theorem clientCode_lawful : Lawful clientCode ClientMemory.sound WholeCalls where
  ends := by
    rintro s calls es k ⟨l,records,hr,hconns,hrep⟩
    cases k with
    | processnewclient newclient fd =>
      have hcall : ∃ r, s.heap.processnewclient newclient fd = some r := by
        by_cases hneg : fd < 0
        · simp [ClientHeap.processnewclient,Heap.store,Heap.free,hneg]
        · exact ⟨_,ClientHeap.processnewclient_linked s.heap newclient hneg⟩
      obtain ⟨⟨heap,fs⟩,hcall⟩ := hcall
      exact ⟨_,fs,unlocks_processnewclient hcall⟩
    | processevent message outcome =>
      obtain ⟨t,fs,_,h,_⟩ := unlocks_processevent hrep (run_listed hr) hconns message outcome
      exact ⟨t,fs,h⟩
  kept := by
    rintro s calls es k t fs ⟨l,records,hr,hconns,hrep⟩ hends
    cases k with
    | processnewclient newclient fd =>
      obtain ⟨hfresh,hfree⟩ := sound_processnewclient hends
      obtain ⟨heap,fs',records',hcall,hrep'⟩ :=
        @Represents.processnewclient s.heap l calls es records hrep newclient fd hfresh
      obtain ⟨rfl,rfl⟩ := hends.unique (unlocks_processnewclient hcall)
      refine ⟨l.processnewclient fd,records',WholeCalls.snoc hr ?_,?_,hrep'⟩
      · simp [HeapCall.call,Lirc.step,hconns,hfree]
      · rw [Lirc.processnewclient,← hconns]
        split <;> rfl
    | processevent message outcome =>
      obtain ⟨u,gs,records',h,hconns',hrep'⟩ :=
        unlocks_processevent hrep (run_listed hr) hconns message outcome
      obtain ⟨rfl,rfl⟩ := hends.unique h
      exact ⟨l.processevent message outcome,records',WholeCalls.snoc hr rfl,hconns',hrep'⟩

section Runs

variable {T : Type} [DecidableEq T] {as : List (Action HeapCall T)}
  {s : State ClientMemory HeapCall Statement T} {tr : List (Report HeapCall HeapEvent)}

def ClientMemory.initial : ClientMemory := ⟨.initial,[]⟩

theorem initial_wholeCalls : WholeCalls .initial [] [] :=
  ⟨.initial,[],rfl,rfl,initial_represents⟩

/-- However the statements of any threads interleave under `lirc_sync`: one thread at most is
between the lock and the unlock, it accesses allocated records only and gets to its unlock,
and its call is then the last of the whole ones; with the lock free, the records and the
connections are those of whole calls, made in the order in which the lock was taken. -/
theorem clientSections_serial
    (hr : run (State.step clientCode) (Sections.initial .initial) as = some (s,tr))
    (hG : EveryStep (State.step clientCode) (Guarded ClientMemory.sound)
      (Sections.initial .initial) as) :
    (∀ t p, s.threads t = .inside p → s.owner = some t ∧
      (∃ u es, Ends clientCode (fun _ _ => True) s.shared p u es) ∧
      ∀ u es, Ends clientCode ClientMemory.sound s.shared p u es →
        WholeCalls u (taken tr) (done tr ++ es)) ∧
    (s.owner = none → WholeCalls s.shared (taken tr) (done tr)) := by
  obtain ⟨hx,hserial⟩ := run_serial clientCode_lawful initial_wholeCalls hG hr
  refine ⟨fun t p ht => ⟨(hx t).mpr (by rw [ht]; rfl),?_,fun u es hu => ?_⟩,hserial.free hx⟩
  · exact hserial.ends clientCode_lawful hx ht
  · exact hserial.completes clientCode_lawful hx ht hu

def acceptsAndCloses : List (Action HeapCall Bool) :=
  [.call false (.processnewclient 1 5),.call true (.processevent [97,10] (fun _ => some 1)),
    .go false,.go false,.go false,.go false,.go false,.go false,.go false,.go false,
    .call false (.processnewclient 1 5),.go true,.go true,.go true]

theorem clientSections_serial_closing :
    ∃ s tr, run (State.step clientCode) (Sections.initial .initial) acceptsAndCloses =
        some (s,tr) ∧ s.owner = some true ∧
      ∃ u es, Ends clientCode (fun _ _ => True) s.shared
        (.close [97,10] (fun _ => some 1) 1) u es := by
  have h : (run (State.step clientCode) (Sections.initial .initial) acceptsAndCloses).map
      (fun r => r.1.threads true) = some (.inside (.close [97,10] (fun _ => some 1) 1)) := rfl
  obtain ⟨⟨s,tr⟩,hr,ht⟩ := Option.map_eq_some_iff.mp h
  obtain ⟨howner,hends,_⟩ :=
    (clientSections_serial hr (everyStep_of_check (by decide))).1 true _ ht
  exact ⟨s,tr,hr,howner,hends⟩

/-- The bytes of two messages do not mix: with the lock free, each client has received the
messages of the calls that took the lock since its accept, whole and in that order, up to
the one at which it was dropped; and the chain holds the open ones, newest first. -/
theorem clientSections_unmixed
    (hr : run (State.step clientCode) (Sections.initial .initial) as = some (s,tr))
    (hG : EveryStep (State.step clientCode) (Guarded ClientMemory.sound)
      (Sections.initial .initial) as)
    (hfit : ∀ k ∈ taken tr, k.call.fits) (ho : s.owner = none) :
    s.shared.heap.Holds (openFds s.shared.conns).reverse ∧
      List.Forall₂ (Conn.Served (openFds s.shared.conns).reverse) s.shared.conns
        (messagesSince ((taken tr).map HeapCall.call)) := by
  obtain ⟨hx,hserial⟩ := run_serial clientCode_lawful initial_wholeCalls hG hr
  obtain ⟨l,records,hl,hconns,hrep⟩ := hserial.free hx ho
  have hfits : ∀ a ∈ (taken tr).map HeapCall.call, a.fits := by
    intro a ha
    obtain ⟨k,hk,rfl⟩ := List.mem_map.mp ha
    exact hfit k hk
  have hI : l.Listed ∧ List.Forall₂ (Conn.Served l.clients) l.conns
      (messagesSince ((taken tr).map HeapCall.call)) :=
    actions_of_everyStep (G := fun _ a => Call.fits a)
      (I := fun l calls => Lirc.Listed l ∧
        List.Forall₂ (Conn.Served l.clients) l.conns (messagesSince calls))
      (fun s as a t es hI hg hs => ⟨hI.1.step hs,Lirc.step_served hI.1 hI.2 hg hs⟩)
      ⟨Lirc.initial_listed,.nil⟩ (everyStep_of_forall _ hfits) hl
  have hclients : l.clients = (openFds s.shared.conns).reverse := by
    rw [← hconns]
    exact hI.1.clients
  have hserved := hI.2
  rw [hclients,hconns] at hserved
  exact ⟨⟨records,hrep.chain,hclients ▸ hrep.fds⟩,hserved⟩

theorem clientSections_unmixed_reused :
    ∃ s tr, run (State.step clientCode) (Sections.initial .initial)
        (acceptsAndCloses ++ List.replicate 11 (.go true) ++ List.replicate 8 (.go false)) =
        some (s,tr) ∧
      openFds s.shared.conns = [5] ∧ s.shared.heap.Holds [5] ∧
      List.Forall₂ (Conn.Served [5]) s.shared.conns [[[97,10]],[]] := by
  have h : (run (State.step clientCode) (Sections.initial .initial)
      (acceptsAndCloses ++ List.replicate 11 (.go true) ++ List.replicate 8 (.go false))).map
        (fun r => (r.1.owner,openFds r.1.shared.conns,taken r.2)) =
          some (none,[5],[.processnewclient 1 5,.processevent [97,10] (fun _ => some 1),
            .processnewclient 1 5]) := rfl
  obtain ⟨⟨s,tr⟩,hr,heq⟩ := Option.map_eq_some_iff.mp h
  obtain ⟨ho,hrest⟩ := Prod.mk.inj heq
  obtain ⟨hopen,htaken⟩ := Prod.mk.inj hrest
  have hfit : ∀ k ∈ taken tr, k.call.fits := by simp [htaken,HeapCall.call,Call.fits,intMax]
  obtain ⟨hholds,hserved⟩ := clientSections_unmixed hr (everyStep_of_check (by decide)) hfit ho
  have hopen : openFds s.shared.conns = [5] := hopen
  rw [hopen] at hholds hserved
  rw [htaken] at hserved
  exact ⟨s,tr,hr,hopen,hholds,hserved⟩

end Runs

end Ceclircd
