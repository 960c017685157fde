import Ceclircd.ClientHeap
set_option autoImplicit false

/-! The client records over the life of the process: `processnewclient` links new ones in
front, `processevent` takes out those that fail. -/

namespace Ceclircd
open RunTrace PointerChain

/-- A call, with the record that `malloc` gives to `xalloc`; that it gives none, and `xalloc`
throws with `lirc_sync` held, is left out. -/
inductive HeapCall where
  | processnewclient (newclient : Nat) (fd : Int)
  | processevent (message : List UInt8) (outcome : Int → Option Nat)

def HeapCall.call : HeapCall → Call
  | .processnewclient _ fd => .processnewclient fd
  | .processevent message outcome => .processevent message outcome

namespace ClientHeap

def initial : ClientHeap := ⟨none,fun _ => none⟩

/-- `xalloc` gives the record zeroed; `fd` is what `accept` returns. -/
def processnewclient (s : ClientHeap) (newclient : Nat) (fd : Int) :
    Option (ClientHeap × List HeapEvent) := do
  let nodes : Heap Nat ClientNode := Function.update s.nodes newclient (some ⟨0,none⟩)
  let node ← nodes newclient
  let nodes ← nodes.store newclient { node with fd }
  let node ← nodes newclient
  if node.fd < 0 then
    let nodes ← nodes.free newclient
    some ({ s with nodes },[.free newclient])
  else
    let nodes ← nodes.store newclient { node with next := s.clients }
    some (⟨some newclient,nodes⟩,[])

def step (fuel : Nat) (s : ClientHeap) : HeapCall → Option (ClientHeap × List HeapEvent)
  | .processnewclient newclient fd => s.processnewclient newclient fd
  | .processevent message outcome =>
    s.processevent fuel message fun client => (fdAt s.nodes client).bind outcome

def Fresh (s : ClientHeap) : HeapCall → Prop
  | .processnewclient newclient _ => s.nodes newclient = none
  | .processevent _ _ => True

instance (s : ClientHeap) (a : HeapCall) : Decidable (s.Fresh a) := by
  cases a with
  | processnewclient newclient fd => exact inferInstanceAs (Decidable (_ = none))
  | processevent message outcome => exact inferInstanceAs (Decidable True)

end ClientHeap

def mallocs (as : List HeapCall) : List Nat :=
  as.filterMap fun | .processnewclient newclient _ => some newclient | .processevent _ _ => none

def closedFds (conns : List Conn) : List Int := (conns.filter fun c => !c.isOpen).map (·.fd)

/-- The heap stands for the list of clients, and holds nothing else. -/
structure Represents (s : ClientHeap) (l : Lirc) (as : List HeapCall) (es : List HeapEvent)
    (records : List Nat) : Prop where
  chain : Chain ClientNode.next s.nodes s.clients records
  fds : records.map (fdAt s.nodes) = l.clients.map some
  allocated : ∀ client, s.nodes client ≠ none → client ∈ records
  ledger : (mallocs as).Perm (frees es ++ records)
  closed : (closes es).Perm (closedFds l.conns)

theorem Represents.length_le {s : ClientHeap} {l : Lirc} {as : List HeapCall}
    {es : List HeapEvent} {records : List Nat} (h : Represents s l as es records) :
    records.length ≤ as.length := by
  have hlen := h.ledger.length_eq
  have hle : (mallocs as).length ≤ as.length := List.length_filterMap_le _ as
  rw [List.length_append] at hlen
  omega

/-! A new client. -/

theorem ClientHeap.processnewclient_refused {s : ClientHeap} {newclient : Nat} {fd : Int}
    (hfresh : s.nodes newclient = none) (hneg : fd < 0) :
    s.processnewclient newclient fd = some (s,[.free newclient]) := by
  have hback : Function.update s.nodes newclient none = s.nodes := by
    rw [← hfresh,Function.update_eq_self]
  simp [processnewclient,Heap.store,Heap.free,hneg,hback]

theorem ClientHeap.processnewclient_linked (s : ClientHeap) (newclient : Nat) {fd : Int}
    (hpos : ¬ fd < 0) : s.processnewclient newclient fd =
      some (⟨some newclient,Function.update s.nodes newclient (some ⟨fd,s.clients⟩)⟩,[]) := by
  simp [processnewclient,Heap.store,hpos]

theorem closedFds_snoc_open (conns : List Conn) (fd : Int) :
    closedFds (conns ++ [⟨fd,true,[],0⟩]) = closedFds conns := by simp [closedFds]

theorem Represents.processnewclient {s : ClientHeap} {l : Lirc} {as : List HeapCall}
    {es : List HeapEvent} {records : List Nat} (h : Represents s l as es records) {newclient : Nat}
    {fd : Int} (hfresh : s.nodes newclient = none) :
    ∃ t fs records', s.processnewclient newclient fd = some (t,fs) ∧
      Represents t (l.processnewclient fd) (as ++ [.processnewclient newclient fd]) (es ++ fs)
        records' := by
  have hmallocs : mallocs (as ++ [.processnewclient newclient fd]) = mallocs as ++ [newclient] := by
    simp [mallocs]
  by_cases hneg : fd < 0
  · refine ⟨s,_,records,ClientHeap.processnewclient_refused hfresh hneg,?_⟩
    rw [Lirc.processnewclient,if_pos hneg]
    refine ⟨h.chain,h.fds,h.allocated,?_,?_⟩
    · have hfrees : frees (es ++ [.free newclient]) = frees es ++ [newclient] := by simp [frees]
      have hback := h.ledger.append_right [newclient]
      rw [List.append_assoc] at hback
      rw [hmallocs,hfrees,List.append_assoc]
      exact hback.trans (List.perm_append_comm.append_left _)
    · have hcloses : closes (es ++ [.free newclient]) = closes es := by simp [closes]
      rw [hcloses]
      exact h.closed
  · have hout : newclient ∉ records := by
      intro hmem
      obtain ⟨node,hnode⟩ := h.chain.allocated newclient hmem
      rw [hfresh] at hnode
      simp at hnode
    have hne : ∀ c ∈ records, c ≠ newclient := fun c hc heq => hout (heq ▸ hc)
    have hlinked := ClientHeap.processnewclient_linked s newclient hneg
    have hsame : ∀ c, c ≠ newclient →
        Function.update s.nodes newclient (some ⟨fd,s.clients⟩) c = s.nodes c :=
      fun c hc => Function.update_of_ne hc _ _
    refine ⟨_,_,newclient :: records,hlinked,?_⟩
    rw [Lirc.processnewclient,if_neg hneg]
    refine ⟨?_,?_,?_,?_,?_⟩
    · refine .cons (n := ⟨fd,s.clients⟩) (Function.update_self _ _ _) (h.chain.frame fun c hc => ?_)
      exact congrArg (Option.map ClientNode.next) (hsame c (hne c hc))
    · have hrest : records.map (fdAt (Function.update s.nodes newclient (some ⟨fd,s.clients⟩))) =
          records.map (fdAt s.nodes) := List.map_congr_left fun c hc => fdAt_update (hne c hc) _
      rw [List.map_cons,hrest,h.fds]
      simp [fdAt]
    · intro c hc
      by_cases heq : c = newclient
      · simp [heq]
      · exact List.mem_cons_of_mem _ (h.allocated c (hsame c heq ▸ hc))
    · rw [hmallocs,List.append_nil]
      exact (List.perm_append_singleton _ _).trans
        ((h.ledger.cons newclient).trans List.perm_middle.symm)
    · rw [List.append_nil,closedFds_snoc_open]
      exact h.closed

/-! A message. -/

theorem filter_dropped {nodes : Heap Nat ClientNode} {records : List Nat} {fds : List Int}
    (hmap : records.map (fdAt nodes) = fds.map some) (message : List UInt8)
    (outcome : Int → Option Nat) :
    (records.filter fun c => !kept message (fun c => (fdAt nodes c).bind outcome) c).filterMap
      (fdAt nodes) = fds.filter (failed message outcome) := by
  induction records generalizing fds with
  | nil =>
    cases fds with
    | nil => rfl
    | cons fd fds => simp at hmap
  | cons c records ih =>
    cases fds with
    | nil => simp at hmap
    | cons fd fds =>
      rw [List.map_cons,List.map_cons,List.cons.injEq] at hmap
      have htail := ih hmap.2
      have hk : kept message (fun c => (fdAt nodes c).bind outcome) c =
          !failed message outcome fd := by
        rw [kept,hmap.1]
        simp [failed,bne,Bool.beq_eq_decide_eq]
      cases hf : failed message outcome fd
      · simp [hk,hf,htail]
      · simp [hk,hf,htail,hmap.1]

theorem closedFds_deliver (message : List UInt8) (outcome : Int → Option Nat) (fds : List Int)
    (conns : List Conn) (h : ∀ c ∈ conns, c.isOpen = true → c.fd ∈ fds) :
    (closedFds (conns.map (fun c => if c.isOpen = true ∧ c.fd ∈ fds
      then c.deliver message outcome else c))).Perm
        (closedFds conns ++ (openFds conns).filter (failed message outcome)) := by
  induction conns with
  | nil => rfl
  | cons c conns ih =>
    have hi := ih fun d hd => h d (by simp [hd])
    unfold closedFds openFds at *
    cases ho : c.isOpen with
    | false => simpa [ho] using hi.cons c.fd
    | true =>
      have hd := c.deliver_isOpen message outcome ho
      cases hf : failed message outcome c.fd with
      | false => simpa [ho,h c (by simp) ho,hd,hf] using hi
      | true =>
        have hmiddle := (hi.cons c.fd).trans List.perm_middle.symm
        simpa [ho,h c (by simp) ho,hd,hf,Conn.deliver_fd] using hmiddle

theorem Represents.processevent {s : ClientHeap} {l : Lirc} {as : List HeapCall}
    {es : List HeapEvent} {records : List Nat} (h : Represents s l as es records) (hlist : l.Listed)
    (message : List UInt8) (outcome : Int → Option Nat) {fuel : Nat}
    (hfuel : records.length ≤ fuel) :
    ∃ t fs records', s.processevent fuel message (fun c => (fdAt s.nodes c).bind outcome) =
        some (t,fs) ∧
      Represents t (l.processevent message outcome) (as ++ [.processevent message outcome])
        (es ++ fs) records' := by
  have hfd : ∀ c ∈ records, ∀ fd, fdAt s.nodes c = some fd → 0 ≤ fd := by
    intro c hc fd hfd
    have hmem : fdAt s.nodes c ∈ l.clients.map some := h.fds ▸ List.mem_map_of_mem hc
    rw [hfd] at hmem
    exact hlist.nonneg fd (by simpa using hmem)
  obtain ⟨t,fs,hrun,hchain,hsame,hgone,hframe,hcloses,hfrees⟩ :=
    processevent_kept h.chain hfd message (fun c => (fdAt s.nodes c).bind outcome) hfuel
  have hmallocs : mallocs (as ++ [.processevent message outcome]) = mallocs as := by
    simp [mallocs]
  refine ⟨t,fs,_,hrun,hchain,?_,?_,?_,?_⟩
  · rw [List.map_congr_left hsame,filter_kept h.fds,Lirc.processevent_eq hlist]
  · intro c hc
    by_cases hmem : c ∈ records
    · refine List.mem_filter.mpr ⟨hmem,?_⟩
      by_contra hk
      exact hc (hgone c hmem (by simpa using hk))
    · exact absurd (h.allocated c (hframe c hmem ▸ hc)) hmem
  · rw [hmallocs,frees,List.filterMap_append,← frees,← frees,hfrees,List.append_assoc]
    refine h.ledger.trans (.append_left _ ?_)
    exact (List.filter_append_perm _ records).symm.trans List.perm_append_comm
  · rw [closes,List.filterMap_append,← closes,← closes,hcloses,filter_dropped h.fds,
      Lirc.processevent_eq hlist]
    refine ((h.closed.append_right _).trans ?_).trans
      (closedFds_deliver message outcome l.clients l.conns
        fun c hc ho => (hlist.mem_iff c.fd).mpr ⟨c,hc,ho,rfl⟩).symm
    refine .append_left _ (.filter _ ?_)
    rw [hlist.clients]
    exact List.reverse_perm _

theorem Represents.step {s : ClientHeap} {l l' : Lirc} {as : List HeapCall} {a : HeapCall}
    {es : List HeapEvent} {records : List Nat} {ds : List Empty} (h : Represents s l as es records)
    (hlist : l.Listed) (hfresh : s.Fresh a) {fuel : Nat} (hfuel : records.length ≤ fuel)
    (hs : l.step a.call = some (l',ds)) :
    ∃ t fs records', s.step fuel a = some (t,fs) ∧
      Represents t l' (as ++ [a]) (es ++ fs) records' := by
  cases a with
  | processnewclient newclient fd =>
    rcases Lirc.step_cases hs with ⟨fd',heq,rfl,_⟩ | ⟨message,outcome,heq,_⟩
    · obtain rfl := Call.processnewclient.inj heq
      exact h.processnewclient hfresh
    · simp [HeapCall.call] at heq
  | processevent message outcome =>
    rcases Lirc.step_cases hs with ⟨fd,heq,_⟩ | ⟨message',outcome',heq,rfl⟩
    · simp [HeapCall.call] at heq
    · obtain ⟨rfl,rfl⟩ := Call.processevent.inj heq
      exact h.processevent hlist message outcome hfuel

theorem initial_represents : Represents .initial .initial [] [] [] :=
  ⟨.nil _,rfl,by simp [ClientHeap.initial],.nil,.nil⟩

/-- Over any accepts and messages the pointer code reads and writes allocated records only.
It holds the open connections in the order of the list and nothing else: each record
`malloc` gave out is linked or was freed once, each dropped connection was closed once. -/
theorem heap_represents {as : List HeapCall} {l : Lirc} {ds : List Empty} {fuel : Nat}
    (hr : run Lirc.step .initial (as.map HeapCall.call) = some (l,ds)) (hfuel : as.length ≤ fuel)
    (hfresh : EveryStep (ClientHeap.step fuel) ClientHeap.Fresh .initial as) :
    ∃ s es records, run (ClientHeap.step fuel) .initial as = some (s,es) ∧
      Represents s l as es records := by
  have hrun : ∃ s es, run (ClientHeap.step fuel) .initial as = some (s,es) ∧
      l.Listed ∧ ∃ records, Represents s l as es records := by
    refine lockstep (R := fun s l as es => l.Listed ∧ ∃ records, Represents s l as es records)
      ?_ ⟨Lirc.initial_listed,[],initial_represents⟩ hr
    rintro pre a post s l es l' ds heq hpre ⟨hlist,records,h⟩ hs
    have hle : pre.length ≤ as.length := by simp [heq]
    have hlen := h.length_le
    obtain ⟨t,fs,records',ht,h'⟩ :=
      h.step hlist (hfresh pre a post s es heq hpre) (Nat.le_trans hlen (Nat.le_trans hle hfuel)) hs
    exact ⟨t,fs,ht,hlist.step hs,records',h'⟩
  obtain ⟨s,es,hs,_,records,h⟩ := hrun
  exact ⟨s,es,records,hs,h⟩

def reusedRecords : List HeapCall :=
  [.processnewclient 1 5,.processnewclient 2 (-1),.processnewclient 2 6,
    .processevent [97,10] (fun fd => if fd = 5 then none else some 2),
    .processnewclient 1 5,.processevent [98,10] (fun _ => some 2)]

theorem heap_represents_reused :
    ∃ s es records l, run (ClientHeap.step 6) .initial reusedRecords = some (s,es) ∧
      l.clients = [5,6] ∧ Represents s l reusedRecords es records := by
  have h : (run Lirc.step .initial (reusedRecords.map HeapCall.call)).map (fun r => r.1.clients) =
      some [5,6] := by decide
  have hfuel : reusedRecords.length ≤ 6 := by decide
  obtain ⟨⟨l,ds⟩,hr,hl⟩ := Option.map_eq_some_iff.mp h
  obtain ⟨s,es,records,hs,hrep⟩ := heap_represents hr hfuel (everyStep_of_check (by decide))
  exact ⟨s,es,records,l,hs,hl,hrep⟩

end Ceclircd
