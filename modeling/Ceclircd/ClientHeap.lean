import Ceclircd.LircClients
import Ceclircd.PointerChain
set_option autoImplicit false

/-! The pointer code of `processevent`: two passes over the chain of `client_t` records,
and the list filter that they amount to. -/

namespace Ceclircd
open PointerChain

structure ClientNode where
  fd : Int
  next : Option Nat
  deriving DecidableEq, Repr

inductive HeapEvent where
  | close (fd : Int)
  | free (client : Nat)
  deriving DecidableEq, Repr

/-- The member `clients`, and the records that `xalloc` gave out and `free` did not yet take
back. -/
structure ClientHeap where
  clients : Option Nat
  nodes : Heap Nat ClientNode

/-- The first `for`. `none` is an access to a record that is not allocated, or more turns
than `fuel`. -/
def writeLoop (message : List UInt8) (outcome : Nat → Option Nat) :
    Nat → Heap Nat ClientNode → Option Nat → Option (Heap Nat ClientNode × List HeapEvent)
  | _, nodes, none => some (nodes,[])
  | 0, _, some _ => none
  | fuel + 1, nodes, some client => do
      let node ← nodes client
      if (write message (outcome client)).1 ≠ len message then
        let nodes ← nodes.store client { node with fd := -1 }
        let node' ← nodes client
        let (nodes,tr) ← writeLoop message outcome fuel nodes node'.next
        some (nodes,.close node.fd :: tr)
      else writeLoop message outcome fuel nodes node.next

/-- `if(prev) prev->next = client->next; else clients = client->next;` -/
def ClientHeap.unlink (s : ClientHeap) (prev : Option Nat) (client : Nat) : Option ClientHeap := do
  let node ← s.nodes client
  match prev with
  | some prev =>
    let before ← s.nodes prev
    let nodes ← s.nodes.store prev { before with next := node.next }
    some { s with nodes }
  | none => some { s with clients := node.next }

def freeLoop : Nat → ClientHeap → Option Nat → Option Nat → Option (ClientHeap × List HeapEvent)
  | _, s, _, none => some (s,[])
  | 0, _, _, some _ => none
  | fuel + 1, s, prev, some client => do
      let node ← s.nodes client
      if node.fd < 0 then
        let s ← s.unlink prev client
        let nodes ← s.nodes.free client
        let (s,tr) ← freeLoop fuel { s with nodes } prev node.next
        some (s,.free client :: tr)
      else freeLoop fuel s (some client) node.next

/-- `lirc::processevent` between its lock and its unlock. -/
def ClientHeap.processevent (fuel : Nat) (message : List UInt8) (outcome : Nat → Option Nat)
    (s : ClientHeap) : Option (ClientHeap × List HeapEvent) := do
  let (nodes,tr) ← writeLoop message outcome fuel s.nodes s.clients
  let (s,tr') ← freeLoop fuel { s with nodes } none s.clients
  some (s,tr ++ tr')

def fdAt (nodes : Heap Nat ClientNode) (client : Nat) : Option Int :=
  (nodes client).map ClientNode.fd

def closes (tr : List HeapEvent) : List Int :=
  tr.filterMap fun | .close fd => some fd | .free _ => none

def frees (tr : List HeapEvent) : List Nat :=
  tr.filterMap fun | .close _ => none | .free client => some client

def kept (message : List UInt8) (outcome : Nat → Option Nat) (client : Nat) : Bool :=
  (write message (outcome client)).1 = len message

def marked (message : List UInt8) (outcome : Nat → Option Nat) (l : List Nat)
    (nodes : Heap Nat ClientNode) : Heap Nat ClientNode := fun client =>
  if client ∈ l ∧ kept message outcome client = false then
    (nodes client).map fun node => { node with fd := -1 }
  else nodes client

theorem marked_kept {message : List UInt8} {outcome : Nat → Option Nat} {a : Nat}
    (ha : kept message outcome a = true) (l : List Nat) (nodes : Heap Nat ClientNode) :
    marked message outcome (a :: l) nodes = marked message outcome l nodes := by
  funext c
  by_cases hc : c = a
  · simp [marked,hc,ha]
  · simp [marked,hc]

theorem marked_failed {message : List UInt8} {outcome : Nat → Option Nat} {a : Nat}
    {l : List Nat} {nodes : Heap Nat ClientNode} {node : ClientNode}
    (ha : kept message outcome a = false) (hl : a ∉ l) (hnode : nodes a = some node) :
    marked message outcome (a :: l) nodes =
      marked message outcome l (Function.update nodes a (some { node with fd := -1 })) := by
  funext c
  by_cases hc : c = a
  · subst hc
    simp [marked,ha,hl,hnode]
  · simp [marked,hc]

theorem fdAt_update {nodes : Heap Nat ClientNode} {a c : Nat} (hc : c ≠ a)
    (n : Option ClientNode) : fdAt (Function.update nodes a n) c = fdAt nodes c := by
  rw [fdAt,Function.update_of_ne hc,fdAt]

theorem writeLoop_spec {message : List UInt8} {outcome : Nat → Option Nat} {l : List Nat}
    {nodes : Heap Nat ClientNode} {p : Option Nat} {fuel : Nat}
    (hl : Chain ClientNode.next nodes p l) (hfuel : l.length ≤ fuel) :
    ∃ tr, writeLoop message outcome fuel nodes p = some (marked message outcome l nodes,tr) ∧
      closes tr = (l.filter fun client => !kept message outcome client).filterMap (fdAt nodes) ∧
      frees tr = [] := by
  induction l generalizing nodes p fuel with
  | nil =>
    obtain rfl := Segment.nil_iff.mp hl
    have hsame : marked message outcome [] nodes = nodes := by
      funext client
      simp [marked]
    exact ⟨[],by rw [hsame,writeLoop],rfl,rfl⟩
  | cons a l ih =>
    have hnd := (List.nodup_cons.mp (Chain.nodup hl)).1
    obtain ⟨fuel,rfl⟩ : ∃ k, fuel = k + 1 := ⟨fuel - 1,by simp at hfuel; omega⟩
    have hfuel' : l.length ≤ fuel := Nat.le_of_succ_le_succ hfuel
    cases hl with
    | @cons _ node _ _ hnode hl =>
      cases hk : kept message outcome a with
      | true =>
        have hfull : (write message (outcome a)).1 = len message := by simpa [kept] using hk
        obtain ⟨tr,hrun,hcloses,hfrees⟩ := ih hl hfuel'
        refine ⟨tr,?_,by simpa [hk] using hcloses,hfrees⟩
        rw [writeLoop,hnode,marked_kept hk,← hrun]
        simp [hfull]
      | false =>
        have hshort : (write message (outcome a)).1 ≠ len message := by simpa [kept] using hk
        have hframe : Chain ClientNode.next
            (Function.update nodes a (some { node with fd := -1 })) node.next l := by
          refine hl.frame fun c hc => ?_
          have hca : c ≠ a := by
            rintro rfl
            exact hnd hc
          rw [Function.update_of_ne hca]
        obtain ⟨tr,hrun,hcloses,hfrees⟩ := ih hframe hfuel'
        refine ⟨.close node.fd :: tr,?_,?_,hfrees⟩
        · rw [writeLoop,hnode,marked_failed hk hnd hnode]
          simp [hshort,Heap.store_eq hnode,hrun]
        · have hfd : fdAt nodes a = some node.fd := by rw [fdAt,hnode]; rfl
          have hsame : (l.filter fun c => !kept message outcome c).filterMap
              (fdAt (Function.update nodes a (some { node with fd := -1 }))) =
                (l.filter fun c => !kept message outcome c).filterMap (fdAt nodes) := by
            refine List.filterMap_congr fun c hc => fdAt_update ?_ _
            rintro rfl
            exact hnd (List.mem_of_mem_filter hc)
          simp [hk,hfd,closes,← hsame,← hcloses]

/-- Taking a record out: the chain before it goes on behind it, and only the pointer in
front of it is written. -/
theorem ClientHeap.unlink_spec {s : ClientHeap} {prev : Option Nat} {a : Nat} {k : List Nat}
    {node : ClientNode} (hk : Segment ClientNode.next s.nodes s.clients k (some a))
    (hprev : prev = k.getLast?) (hnode : s.nodes a = some node) (hnd : k.Nodup) :
    ∃ t, s.unlink prev a = some t ∧ Segment ClientNode.next t.nodes t.clients k node.next ∧
      (∀ c, fdAt t.nodes c = fdAt s.nodes c) ∧ ∀ c, c ∉ k → t.nodes c = s.nodes c := by
  rcases List.eq_nil_or_concat k with rfl | ⟨k,b,rfl⟩
  · subst hprev
    refine ⟨{ s with clients := node.next },?_,.nil _,fun _ => rfl,fun _ _ => rfl⟩
    simp [unlink,hnode]
  · rw [List.concat_eq_append] at hk hprev hnd ⊢
    rw [List.getLast?_concat] at hprev
    subst hprev
    obtain ⟨before,hbefore⟩ := hk.allocated b (by simp)
    have hb : b ∉ k := by
      have hdisj := List.nodup_append.mp hnd
      exact fun hmem => hdisj.2.2 b hmem b (by simp) rfl
    refine ⟨⟨s.clients,Function.update s.nodes b (some { before with next := node.next })⟩,
      ?_,?_,?_,?_⟩
    · simp [unlink,hnode,hbefore,Heap.store_eq hbefore]
    · exact hk.retarget (n := { before with next := node.next }) hb
    · intro c
      by_cases hc : c = b
      · subst hc
        simp [fdAt,hbefore]
      · exact fdAt_update hc _
    · intro c hc
      exact Function.update_of_ne (fun heq => hc (by simp [heq])) _ _

def isLive (nodes : Heap Nat ClientNode) (client : Nat) : Bool :=
  (fdAt nodes client).any fun fd => 0 ≤ fd

theorem isLive_congr {nodes nodes' : Heap Nat ClientNode} {l : List Nat}
    (h : ∀ c ∈ l, nodes' c = nodes c) : ∀ c ∈ l, isLive nodes' c = isLive nodes c := by
  intro c hc
  rw [isLive,fdAt,h c hc,← fdAt,← isLive]

/-- What the second pass makes of the records `l` still to come, with `k` behind it. -/
structure FreesDead (s t : ClientHeap) (tr : List HeapEvent) (k l : List Nat) : Prop where
  chain : Chain ClientNode.next t.nodes t.clients (k ++ l.filter (isLive s.nodes))
  fds : ∀ c ∈ k ++ l.filter (isLive s.nodes), fdAt t.nodes c = fdAt s.nodes c
  gone : ∀ c ∈ l, isLive s.nodes c = false → t.nodes c = none
  frame : ∀ c, c ∉ k ++ l → t.nodes c = s.nodes c
  frees : frees tr = l.filter fun c => !isLive s.nodes c
  closes : closes tr = []

theorem FreesDead.nil {s : ClientHeap} {k : List Nat}
    (hk : Chain ClientNode.next s.nodes s.clients k) : FreesDead s s [] k [] where
  chain := by simpa using hk
  fds := fun _ _ => rfl
  gone := by simp
  frame := fun _ _ => rfl
  frees := rfl
  closes := rfl

theorem FreesDead.live {s t : ClientHeap} {tr : List HeapEvent} {k l : List Nat} {a : Nat}
    (ha : isLive s.nodes a = true) (h : FreesDead s t tr (k ++ [a]) l) :
    FreesDead s t tr k (a :: l) where
  chain := by simpa [ha] using h.chain
  fds := by simpa [ha] using h.fds
  gone := by
    intro c hc hdead
    rcases List.mem_cons.mp hc with rfl | hc
    · simp [ha] at hdead
    · exact h.gone c hc hdead
  frame := by simpa using h.frame
  frees := by simpa [ha] using h.frees
  closes := h.closes

theorem FreesDead.dead {s u t : ClientHeap} {tr : List HeapEvent} {k l : List Nat} {a : Nat}
    (ha : isLive s.nodes a = false) (hak : a ∉ k) (hal : a ∉ l) (hkl : ∀ c ∈ k, c ∉ l)
    (hgone : u.nodes a = none) (hfds : ∀ c, c ≠ a → fdAt u.nodes c = fdAt s.nodes c)
    (hframe : ∀ c, c ∉ k → c ≠ a → u.nodes c = s.nodes c) (h : FreesDead u t tr k l) :
    FreesDead s t (.free a :: tr) k (a :: l) := by
  have hlives : ∀ c ∈ l, isLive u.nodes c = isLive s.nodes c :=
    isLive_congr fun c hc => hframe c (fun hck => hkl c hck hc) fun hca => hal (hca ▸ hc)
  have hfilter : l.filter (isLive u.nodes) = l.filter (isLive s.nodes) :=
    List.filter_congr hlives
  refine ⟨?_,?_,?_,?_,?_,h.closes⟩
  · simpa [ha,hfilter] using h.chain
  · intro c hc
    have hmem : c ∈ k ++ l.filter (isLive u.nodes) := by simpa [ha,hfilter] using hc
    have hca : c ≠ a := by
      rintro rfl
      rcases List.mem_append.mp hmem with hc | hc
      · exact hak hc
      · exact hal (List.mem_of_mem_filter hc)
    rw [h.fds c hmem,hfds c hca]
  · intro c hc hdead
    rcases List.mem_cons.mp hc with rfl | hc
    · rw [h.frame c (by simp [hak,hal]),hgone]
    · exact h.gone c hc ((hlives c hc).trans hdead)
  · intro c hc
    rw [List.mem_append,List.mem_cons,not_or,not_or] at hc
    rw [h.frame c (by simp [hc]),hframe c hc.1 hc.2.1]
  · have hdeads : l.filter (fun c => !isLive u.nodes c) = l.filter (fun c => !isLive s.nodes c) :=
      List.filter_congr fun c hc => by rw [hlives c hc]
    have hfrees := h.frees
    rw [hdeads] at hfrees
    simp [Ceclircd.frees,ha,← hfrees]

theorem ClientHeap.drop_spec {s : ClientHeap} {prev : Option Nat} {a : Nat} {k : List Nat}
    {node : ClientNode} (hk : Segment ClientNode.next s.nodes s.clients k (some a))
    (hprev : prev = k.getLast?) (hnode : s.nodes a = some node) (hnd : k.Nodup) (hak : a ∉ k) :
    ∃ t nodes, s.unlink prev a = some t ∧ t.nodes.free a = some nodes ∧
      Segment ClientNode.next nodes t.clients k node.next ∧ nodes a = none ∧
      (∀ c, c ≠ a → fdAt nodes c = fdAt s.nodes c) ∧
      ∀ c, c ∉ k → c ≠ a → nodes c = s.nodes c := by
  obtain ⟨t,ht,hseg,hfds,hframe⟩ := ClientHeap.unlink_spec hk hprev hnode hnd
  have hta : t.nodes a = some node := (hframe a hak).trans hnode
  have hne : ∀ c ∈ k, c ≠ a := fun c hc hca => hak (hca ▸ hc)
  refine ⟨t,_,ht,Heap.free_eq hta,?_,Function.update_self _ _ _,?_,?_⟩
  · exact hseg.frame fun c hc => by rw [Function.update_of_ne (hne c hc)]
  · intro c hc
    rw [fdAt_update hc,hfds]
  · intro c hc hca
    rw [Function.update_of_ne hca,hframe c hc]

/-- The second pass keeps the live records in order, and frees the others. -/
theorem freeLoop_spec {l k : List Nat} {s : ClientHeap} {prev client : Option Nat} {fuel : Nat}
    (hk : Segment ClientNode.next s.nodes s.clients k client) (hprev : prev = k.getLast?)
    (hl : Chain ClientNode.next s.nodes client l) (hnd : k.Nodup) (hdisj : ∀ c ∈ k, c ∉ l)
    (hfuel : l.length ≤ fuel) :
    ∃ t tr, freeLoop fuel s prev client = some (t,tr) ∧ FreesDead s t tr k l := by
  induction l generalizing k s prev client fuel with
  | nil =>
    obtain rfl := Segment.nil_iff.mp hl
    exact ⟨s,[],by rw [freeLoop],.nil hk⟩
  | cons a l ih =>
    obtain ⟨fuel,rfl⟩ : ∃ m, fuel = m + 1 := ⟨fuel - 1,by simp at hfuel; omega⟩
    have hfuel' : l.length ≤ fuel := Nat.le_of_succ_le_succ hfuel
    have hak : a ∉ k := fun hc => hdisj a hc List.mem_cons_self
    have hal : a ∉ l := (List.nodup_cons.mp (Chain.nodup hl)).1
    have hkl : ∀ c ∈ k, c ∉ l := fun c hc hmem => hdisj c hc (List.mem_cons_of_mem _ hmem)
    cases hl with
    | @cons _ node _ _ hnode hl =>
      have hfd : fdAt s.nodes a = some node.fd := by rw [fdAt,hnode]; rfl
      by_cases hlive : node.fd < 0
      · have hdead : isLive s.nodes a = false := by simpa [isLive,hfd] using hlive
        obtain ⟨u,nodes,hu,hfree,hseg,hgone,hfds,hframe⟩ :=
          ClientHeap.drop_spec hk hprev hnode hnd hak
        have hl' : Chain ClientNode.next nodes node.next l := by
          refine hl.frame fun c hc => ?_
          rw [hframe c (fun hck => hkl c hck hc) fun hca => hal (hca ▸ hc)]
        obtain ⟨t,tr,hrun,hrest⟩ := ih (s := ⟨u.clients,nodes⟩) hseg hprev hl' hnd hkl hfuel'
        refine ⟨t,.free a :: tr,?_,hrest.dead hdead hak hal hkl hgone hfds hframe⟩
        rw [freeLoop,hnode]
        simp [hlive,hu,hfree,hrun]
      · have halive : isLive s.nodes a = true := by simpa [isLive,hfd] using hlive
        have hlast : some a = (k ++ [a]).getLast? := by simp
        have hnd' : (k ++ [a]).Nodup := by
          refine List.nodup_append.mpr ⟨hnd,by simp,fun c hc b hb => ?_⟩
          rw [List.mem_singleton.mp hb]
          exact fun hca => hak (hca ▸ hc)
        have hdisj' : ∀ c ∈ k ++ [a], c ∉ l := by
          intro c hc hmem
          rcases List.mem_append.mp hc with hc | hc
          · exact hkl c hc hmem
          · exact hal (List.mem_singleton.mp hc ▸ hmem)
        obtain ⟨t,tr,hrun,hrest⟩ := ih (hk.snoc hnode) hlast hl hnd' hdisj' hfuel'
        refine ⟨t,tr,?_,hrest.live halive⟩
        rw [freeLoop,hnode]
        simpa [hlive] using hrun

theorem marked_frame (message : List UInt8) (outcome : Nat → Option Nat) (l : List Nat)
    (nodes : Heap Nat ClientNode) (c : Nat) :
    (marked message outcome l nodes c).map ClientNode.next =
      (nodes c).map ClientNode.next := by
  unfold marked
  split
  · rw [Option.map_map]
    rfl
  · rfl

theorem isLive_marked {message : List UInt8} {outcome : Nat → Option Nat} {l : List Nat}
    {nodes : Heap Nat ClientNode} {c : Nat} {fd : Int} (hc : c ∈ l)
    (hfd : fdAt nodes c = some fd) (hpos : 0 ≤ fd) :
    isLive (marked message outcome l nodes) c = kept message outcome c := by
  obtain ⟨node,hnode,rfl⟩ := Option.map_eq_some_iff.mp hfd
  cases hk : kept message outcome c
  · simp [isLive,fdAt,marked,hc,hk,hnode]
  · simpa [isLive,fdAt,marked,hk,hnode] using hpos

theorem processevent_kept {s : ClientHeap} {l : List Nat}
    (hl : Chain ClientNode.next s.nodes s.clients l)
    (hfd : ∀ c ∈ l, ∀ fd, fdAt s.nodes c = some fd → 0 ≤ fd) (message : List UInt8)
    (outcome : Nat → Option Nat) {fuel : Nat} (hfuel : l.length ≤ fuel) :
    ∃ t tr, s.processevent fuel message outcome = some (t,tr) ∧
      Chain ClientNode.next t.nodes t.clients (l.filter (kept message outcome)) ∧
      (∀ c ∈ l.filter (kept message outcome), fdAt t.nodes c = fdAt s.nodes c) ∧
      (∀ c ∈ l, kept message outcome c = false → t.nodes c = none) ∧
      (∀ c, c ∉ l → t.nodes c = s.nodes c) ∧
      closes tr = (l.filter fun c => !kept message outcome c).filterMap (fdAt s.nodes) ∧
      frees tr = l.filter fun c => !kept message outcome c := by
  obtain ⟨tr,hwrite,hcloses,hfrees⟩ := writeLoop_spec hl hfuel
  have hl' : Chain ClientNode.next (marked message outcome l s.nodes) s.clients l :=
    hl.frame fun c _ => marked_frame message outcome l s.nodes c
  have hlive : ∀ c ∈ l, isLive (marked message outcome l s.nodes) c = kept message outcome c := by
    intro c hc
    obtain ⟨node,hnode⟩ := hl.allocated c hc
    have hnode' : fdAt s.nodes c = some node.fd := by rw [fdAt,hnode]; rfl
    exact isLive_marked hc hnode' (hfd c hc _ hnode')
  obtain ⟨t,tr',hfree,hchain,hsame,hgone,hout,hfrees',hcloses'⟩ :=
    freeLoop_spec (s := ⟨s.clients,marked message outcome l s.nodes⟩) (.nil _) rfl hl'
      List.nodup_nil (by simp) hfuel
  dsimp only at hchain hsame hgone hout hfrees'
  rw [List.nil_append,List.filter_congr hlive] at hchain hsame
  have hfree' : freeLoop fuel ⟨s.clients,marked message outcome l s.nodes⟩ none s.clients =
      some (t,tr') := hfree
  refine ⟨t,tr ++ tr',?_,hchain,?_,?_,?_,?_,?_⟩
  · rw [ClientHeap.processevent,hwrite]
    simp [hfree']
  · intro c hc
    rw [hsame c hc]
    simp [fdAt,marked,(List.mem_filter.mp hc).2]
  · intro c hc hk
    exact hgone c hc ((hlive c hc).trans hk)
  · intro c hc
    rw [hout c (by simpa using hc)]
    simp [marked,hc]
  · rw [closes,List.filterMap_append,← closes,← closes,hcloses,hcloses',List.append_nil]
  · rw [frees,List.filterMap_append,← frees,← frees,hfrees,hfrees',List.nil_append]
    exact List.filter_congr fun c hc => by rw [hlive c hc]

def wroteAll (message : List UInt8) (outcome : Nat → Option Nat) (client : Nat) : Bool :=
  (write message (outcome client)).1 = message.length

theorem kept_eq_wroteAll {message : List UInt8} (hfit : message.length ≤ intMax)
    (outcome : Nat → Option Nat) : kept message outcome = wroteAll message outcome := by
  funext c
  rw [kept,wroteAll,len_eq hfit]

/-- On every chain `processevent` ends, and is the filter of the clients whose write took
the whole message: the others are closed and freed once, and nothing else is changed. -/
theorem processevent_filters {s : ClientHeap} {l : List Nat}
    (hl : Chain ClientNode.next s.nodes s.clients l)
    (hfd : ∀ c ∈ l, ∀ fd, fdAt s.nodes c = some fd → 0 ≤ fd) {message : List UInt8}
    (hfit : message.length ≤ intMax) (outcome : Nat → Option Nat) {fuel : Nat}
    (hfuel : l.length ≤ fuel) :
    ∃ t tr, s.processevent fuel message outcome = some (t,tr) ∧ l.Nodup ∧
      Chain ClientNode.next t.nodes t.clients (l.filter (wroteAll message outcome)) ∧
      (∀ c ∈ l.filter (wroteAll message outcome), fdAt t.nodes c = fdAt s.nodes c) ∧
      (∀ c ∈ l, wroteAll message outcome c = false → t.nodes c = none) ∧
      (∀ c, c ∉ l → t.nodes c = s.nodes c) ∧
      closes tr = (l.filter fun c => !wroteAll message outcome c).filterMap (fdAt s.nodes) ∧
      frees tr = l.filter fun c => !wroteAll message outcome c := by
  obtain ⟨t,tr,hrun,hrest⟩ := processevent_kept hl hfd message outcome hfuel
  rw [kept_eq_wroteAll hfit] at hrest
  exact ⟨t,tr,hrun,Chain.nodup hl,hrest⟩

def threeClients : ClientHeap :=
  ⟨some 1,fun c => if c = 1 then some ⟨5,some 4⟩ else if c = 4 then some ⟨6,some 2⟩
    else if c = 2 then some ⟨7,none⟩ else none⟩

theorem threeClients_chain :
    Chain ClientNode.next threeClients.nodes threeClients.clients [1,4,2] :=
  have hlast : Chain ClientNode.next threeClients.nodes (some 2) [2] :=
    .cons (show threeClients.nodes 2 = some ⟨7,none⟩ from rfl) (.nil _)
  have hmiddle : Chain ClientNode.next threeClients.nodes (some 4) [4,2] :=
    .cons (show threeClients.nodes 4 = some ⟨6,some 2⟩ from rfl) hlast
  .cons (show threeClients.nodes 1 = some ⟨5,some 4⟩ from rfl) hmiddle

theorem processevent_filters_adjacent :
    ∃ t tr, threeClients.processevent 3 [97,10] (fun c => if c = 2 then some 2 else none) =
        some (t,tr) ∧
      Chain ClientNode.next t.nodes t.clients [2] ∧ closes tr = [5,6] ∧ frees tr = [1,4] := by
  have hfit : ([97,10] : List UInt8).length ≤ intMax := by decide
  obtain ⟨t,tr,hrun,_,hchain,_,_,_,hcloses,hfrees⟩ := processevent_filters threeClients_chain
    (by decide) hfit (fun c => if c = 2 then some 2 else none) (Nat.le_refl 3)
  exact ⟨t,tr,hrun,hchain,hcloses,hfrees⟩

/-- A message whose length is 0 as an `int` keeps a client that was sent nothing. -/
theorem kept_of_len_eq_zero {message : List UInt8} (hlen : len message = 0)
    (hne : message ≠ []) :
    ∃ t tr, ClientHeap.processevent 1 message (fun _ => some 0)
        ⟨some 1,fun c => if c = 1 then some ⟨5,none⟩ else none⟩ = some (t,tr) ∧
      ¬ Chain ClientNode.next t.nodes t.clients ([1].filter (wroteAll message fun _ => some 0)) := by
  have hw : (write message (some 0)).1 = 0 := by simp [write]
  have hkept : kept message (fun _ => some 0) 1 = true := by simp [kept,hw,hlen]
  have hshort : wroteAll message (fun _ => some 0) 1 = false := by
    simpa [wroteAll,hw,eq_comm] using hne
  obtain ⟨t,tr,hrun,hchain,_⟩ :=
    processevent_kept (s := ⟨some 1,fun c => if c = 1 then some ⟨5,none⟩ else none⟩)
      (l := [1]) (.cons (n := ClientNode.mk 5 none) rfl (.nil _)) (by decide) message (fun _ => some 0)
      (Nat.le_refl 1)
  refine ⟨t,tr,hrun,fun hnone => ?_⟩
  have huniq := Chain.unique hchain hnone
  simp [hkept,hshort] at huniq

/-- 2^32 bytes: `write` takes none of them, and the client stays in the chain. -/
theorem long_message_keeps_client :
    ∃ t tr, ClientHeap.processevent 1 (List.replicate (2 ^ 32) 97) (fun _ => some 0)
        ⟨some 1,fun c => if c = 1 then some ⟨5,none⟩ else none⟩ = some (t,tr) ∧
      ¬ Chain ClientNode.next t.nodes t.clients
        ([1].filter (wroteAll (List.replicate (2 ^ 32) 97) fun _ => some 0)) :=
  kept_of_len_eq_zero (len_replicate_wraps (by decide) 97)
    (List.ne_nil_of_length_pos (by rw [List.length_replicate]; exact Nat.two_pow_pos 32))

/-! The list of descriptors that the chain stands for. -/

def ClientHeap.Holds (s : ClientHeap) (fds : List Int) : Prop :=
  ∃ l, Chain ClientNode.next s.nodes s.clients l ∧ l.map (fdAt s.nodes) = fds.map some

theorem filter_kept {nodes : Heap Nat ClientNode} {l : List Nat} {fds : List Int}
    (hmap : l.map (fdAt nodes) = fds.map some) (message : List UInt8)
    (outcome : Int → Option Nat) :
    (l.filter (kept message fun c => (fdAt nodes c).bind outcome)).map (fdAt nodes) =
      (fds.filter fun fd => !failed message outcome fd).map some := by
  induction l generalizing fds with
  | nil =>
    cases fds with
    | nil => rfl
    | cons fd fds => simp at hmap
  | cons c l ih =>
    cases fds with
    | nil => simp at hmap
    | cons fd fds =>
      rw [List.map_cons,List.map_cons,List.cons.injEq] at hmap
      have htail := ih hmap.2
      have hk : kept message (fun c => (fdAt nodes c).bind outcome) c =
          !failed message outcome fd := by
        rw [kept,hmap.1]
        simp [failed,bne,Bool.beq_eq_decide_eq]
      cases hf : failed message outcome fd
      · simp [hk,hf,htail,hmap.1]
      · simp [hk,hf,htail]

/-- The pointer code does to the chain what `Lirc.processevent` does to the list. -/
theorem ClientHeap.processevent_simulates {s : ClientHeap} {fds : List Int} (hs : s.Holds fds)
    (hnd : fds.Nodup) (hpos : ∀ fd ∈ fds, 0 ≤ fd) (conns : List Conn) (message : List UInt8)
    (outcome : Int → Option Nat) :
    ∃ fuel t tr, s.processevent fuel message (fun c => (fdAt s.nodes c).bind outcome) =
        some (t,tr) ∧ t.Holds ((Lirc.mk fds conns).processevent message outcome).clients := by
  obtain ⟨l,hl,hmap⟩ := hs
  have hfd : ∀ c ∈ l, ∀ fd, fdAt s.nodes c = some fd → 0 ≤ fd := by
    intro c hc fd hfd
    have hmem : fdAt s.nodes c ∈ fds.map some := hmap ▸ List.mem_map_of_mem hc
    rw [hfd] at hmem
    exact hpos fd (by simpa using hmem)
  obtain ⟨t,tr,hrun,hchain,hsame,_⟩ :=
    processevent_kept hl hfd message (fun c => (fdAt s.nodes c).bind outcome) (Nat.le_refl _)
  refine ⟨_,t,tr,hrun,_,hchain,?_⟩
  have hclients : ((Lirc.mk fds conns).processevent message outcome).clients =
      fds.filter fun fd => !failed message outcome fd := by
    rw [Lirc.processevent,writeClients_eq message outcome fds conns hnd]
    exact unlinkClosed_marked message outcome fds hpos
  rw [hclients,← filter_kept hmap]
  exact List.map_congr_left hsame

end Ceclircd
