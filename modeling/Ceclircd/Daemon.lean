import Ceclircd.ClientText
set_option autoImplicit false

/-! The whole daemon: what its threads hand to `writeLirc`, line by line to the clients, while
the accept thread adds clients between any two of them. -/

namespace Ceclircd
open RunTrace

/-- `pending`: the calls of `writeLirc` that are under way, each with the lines it still has
to hand to `processevent`. -/
structure Daemon where
  system : System
  lirc : Lirc
  pending : List (List Line)

/-- `processevent` takes the next line of the call at `caller`. -/
inductive DaemonAction where
  | main (a : Action)
  | processevent (caller : Nat) (outcome : Int → Option Nat)
  | processnewclient (fd : Int)

inductive DaemonEvent where
  | main (e : Event)
  | written (l : Line)
  | connected
  deriving DecidableEq, Repr

def DaemonEvent.main? : DaemonEvent → Option Event
  | .main e => some e
  | _ => none

def DaemonEvent.written? : DaemonEvent → Option Line
  | .written l => some l
  | _ => none

def mainEvents (tr : List DaemonEvent) : List Event := tr.filterMap DaemonEvent.main?
def written (tr : List DaemonEvent) : List Line := tr.filterMap DaemonEvent.written?

namespace Daemon

def initial (c : Settings) : Daemon := ⟨.initial c,.initial,[]⟩

/-- A call of `processevent` is one step: `lirc_sync` is taken to exclude in every session,
although the first `Close` destroys it. -/
def step (d : Daemon) : DaemonAction → Option (Daemon × List DaemonEvent)
  | .main a => do
      let (system,es) ← d.system.step a
      some ({ d with system, pending := d.pending ++ [lines es] },es.map .main)
  | .processevent caller outcome =>
    if d.system.killed then none
    else match d.pending[caller]? with
      | some (l :: rest) =>
        some ({ d with lirc := d.lirc.processevent l.bytes outcome,
                       pending := d.pending.set caller rest },[.written l])
      | _ => none
  | .processnewclient fd =>
    if d.system.killed then none
    else do
      let (lirc,_) ← d.lirc.step (.processnewclient fd)
      some ({ d with lirc },if fd < 0 then [] else [.connected])

end Daemon

def heardStep (ms : List (List Line)) : DaemonEvent → List (List Line)
  | .main _ => ms
  | .written l => ms.map (· ++ [l])
  | .connected => ms ++ [[]]

def heard (tr : List DaemonEvent) : List (List Line) := tr.foldl heardStep []

/-- The records a client's program has seen the end of. -/
def Conn.read (c : Conn) : List (List (List Char)) := records (c.received.map byteChar)

/-- The client's program reads these lines, and reads them back unless one has the empty name. -/
def Conn.Splits (c : Conn) (ls : List Line) : Prop :=
  c.read = ls.map Line.fields ∧
    (List.Forall₂ ReadsBack c.read ls ↔ ∀ l ∈ ls, l.keyString ≠ "")

/-- What a client reads of the lines written since its accept: all while it is connected, and
else those before the line at which it was dropped, of which it received a proper part. -/
inductive Conn.Reads (c : Conn) (ls : List Line) : Prop where
  | connected (ho : c.isOpen = true) (hr : c.received = (ls.map Line.bytes).flatten)
      (hread : c.Splits ls)
  | dropped (ho : c.isOpen = false) (seen : List Line) (failed : Line) (after : List Line)
      (hls : ls = seen ++ failed :: after) (part : List UInt8) (hpre : part <+: failed.bytes)
      (hproper : part ≠ failed.bytes) (hr : c.received = (seen.map Line.bytes).flatten ++ part)
      (hread : c.Splits seen)

section
variable {d d' : Daemon} {a : DaemonAction} {es tr : List DaemonEvent}

theorem mainEvents_append (tr es : List DaemonEvent) :
    mainEvents (tr ++ es) = mainEvents tr ++ mainEvents es := by simp [mainEvents]

theorem written_append (tr es : List DaemonEvent) :
    written (tr ++ es) = written tr ++ written es := by simp [written]

theorem mainEvents_main (es : List Event) : mainEvents (es.map .main) = es := by
  rw [mainEvents,List.filterMap_map]
  exact List.filterMap_some

theorem written_main (es : List Event) : written (es.map .main) = [] := by
  rw [written,List.filterMap_map]
  exact List.filterMap_eq_nil_iff.mpr fun _ _ => rfl

theorem heard_append (tr es : List DaemonEvent) :
    heard (tr ++ es) = es.foldl heardStep (heard tr) := by
  simp [heard]

theorem heard_main (ms : List (List Line)) (es : List Event) :
    (es.map DaemonEvent.main).foldl heardStep ms = ms := by
  induction es with
  | nil => rfl
  | cons e es ih => simpa [heardStep] using ih

/-! What a step of the daemon can do, said once. -/

inductive DaemonMove (d : Daemon) : Daemon → List DaemonEvent → Prop where
  | main (a : Action) (system : System) (es : List Event) (h : d.system.step a = some (system,es)) :
      DaemonMove d { d with system, pending := d.pending ++ [lines es] } (es.map .main)
  | wrote (before after : List (List Line)) (l : Line) (rest : List Line)
      (h : d.pending = before ++ (l :: rest) :: after) (outcome : Int → Option Nat) :
      DaemonMove d { d with lirc := d.lirc.processevent l.bytes outcome,
                            pending := before ++ rest :: after } [.written l]
  | refused : DaemonMove d d []
  | accepted (fd : Int) (hpos : ¬ fd < 0) (lirc : Lirc) (ds : List Empty)
      (h : d.lirc.step (.processnewclient fd) = some (lirc,ds)) :
      DaemonMove d { d with lirc } [.connected]

theorem Daemon.step_move (h : d.step a = some (d',es)) : DaemonMove d d' es := by
  cases a with
  | main a =>
    simp only [step,Option.bind_eq_bind,Option.bind_eq_some_iff,Option.some.injEq,
      Prod.mk.injEq] at h
    obtain ⟨⟨system,fs⟩,hs,rfl,rfl⟩ := h
    exact .main a system fs hs
  | processevent caller outcome =>
    simp only [step] at h
    split at h
    · simp at h
    · split at h
      · next l rest hcaller =>
        obtain ⟨rfl,rfl⟩ := Prod.mk.inj (Option.some.inj h)
        obtain ⟨hlt,hget⟩ := List.getElem?_eq_some_iff.mp hcaller
        have hsplit : d.pending =
            d.pending.take caller ++ (l :: rest) :: d.pending.drop (caller + 1) := by
          rw [← hget,List.getElem_cons_drop,List.take_append_drop]
        rw [List.set_eq_take_append_cons_drop,if_pos hlt]
        exact .wrote _ _ l rest hsplit outcome
      · simp at h
  | processnewclient fd =>
    simp only [step] at h
    split at h
    · simp at h
    · simp only [Option.bind_eq_bind,Option.bind_eq_some_iff,Option.some.injEq,Prod.mk.injEq] at h
      obtain ⟨⟨lirc,ds⟩,hs,rfl,rfl⟩ := h
      by_cases hneg : fd < 0
      · rcases Lirc.step_cases hs with ⟨fd',heq,hl,_⟩ | ⟨_,_,heq,_⟩
        · obtain rfl := Call.processnewclient.inj heq
          have hsame : lirc = d.lirc := by rw [hl,Lirc.processnewclient,if_pos hneg]
          rw [hsame,if_pos hneg]
          exact .refused
        · simp at heq
      · rw [if_neg hneg]
        exact .accepted fd hneg lirc ds hs

/-! What it keeps. -/

theorem DaemonMove.keeps_lines (h : DaemonMove d d' es)
    (hd : (written tr ++ d.pending.flatten).Perm (lines (mainEvents tr))) :
    (written (tr ++ es) ++ d'.pending.flatten).Perm (lines (mainEvents (tr ++ es))) := by
  rw [written_append,mainEvents_append]
  cases h with
  | main a system es h =>
    rw [written_main,mainEvents_main,lines_append,List.append_nil,List.flatten_append,
      List.flatten_singleton,← List.append_assoc]
    exact hd.append_right _
  | wrote before after l rest h outcome =>
    have hnext : (before ++ (l :: rest) :: after).flatten.Perm
        (l :: (before ++ rest :: after).flatten) := by
      simp only [List.flatten_append,List.flatten_cons,List.cons_append]
      exact List.perm_middle
    rw [h] at hd
    have hall := (hnext.symm.append_left (written tr)).trans hd
    rw [show mainEvents [DaemonEvent.written l] = [] from rfl,List.append_nil,List.append_assoc]
    exact hall
  | refused => simpa [written,mainEvents] using hd
  | accepted fd hpos lirc ds h =>
    rw [show mainEvents [DaemonEvent.connected] = [] from rfl,List.append_nil,
      show written [DaemonEvent.connected] = [] from rfl,List.append_nil]
    exact hd

theorem DaemonMove.keeps_main {c : Settings} (h : DaemonMove d d' es)
    (hd : ∃ as, run System.step (.initial c) as = some (d.system,mainEvents tr)) :
    ∃ as, run System.step (.initial c) as = some (d'.system,mainEvents (tr ++ es)) := by
  obtain ⟨as,hr⟩ := hd
  rw [mainEvents_append]
  cases h with
  | main a system es h =>
    rw [mainEvents_main]
    exact ⟨as ++ [a],run_append_iff.mpr ⟨_,_,_,hr,run_singleton_iff.mpr h,rfl⟩⟩
  | wrote before after l rest h outcome =>
    rw [show mainEvents [DaemonEvent.written l] = [] from rfl,List.append_nil]
    exact ⟨as,hr⟩
  | refused => exact ⟨as,by simpa [mainEvents] using hr⟩
  | accepted fd hpos lirc ds h =>
    rw [show mainEvents [DaemonEvent.connected] = [] from rfl,List.append_nil]
    exact ⟨as,hr⟩

structure Daemon.Serving (d : Daemon) (tr : List DaemonEvent) : Prop where
  listed : d.lirc.Listed
  served : List.Forall₂ (fun c ls => Conn.Served d.lirc.clients c (ls.map Line.bytes) ∧
    ∀ l ∈ ls, l.Mapped) d.lirc.conns (heard tr)

theorem Daemon.initial_serving (c : Settings) : (Daemon.initial c).Serving [] :=
  ⟨Lirc.initial_listed,.nil⟩

theorem Daemon.Serving.wrote (h : d.Serving tr) {l : Line} (hl : l.Mapped)
    (outcome : Int → Option Nat) (pending : List (List Line)) :
    ({ d with lirc := d.lirc.processevent l.bytes outcome, pending } : Daemon).Serving
      (tr ++ [.written l]) := by
  have hheard : heard (tr ++ [.written l]) = (heard tr).map (· ++ [l]) := heard_append tr _
  refine ⟨h.listed.processevent _ _,?_⟩
  rw [hheard,Lirc.processevent_eq h.listed]
  simp only [List.forall₂_map_left_iff,List.forall₂_map_right_iff]
  refine h.served.imp fun c ls hc => ⟨?_,?_⟩
  · rw [List.map_append]
    exact hc.1.deliver hl.fits outcome
  · intro x hx
    rcases List.mem_append.mp hx with hx | hx
    · exact hc.2 x hx
    · rw [List.mem_singleton.mp hx]
      exact hl

theorem Daemon.Serving.accepted (h : d.Serving tr) {fd : Int} (hpos : ¬ fd < 0) {lirc : Lirc}
    {ds : List Empty} (hs : d.lirc.step (.processnewclient fd) = some (lirc,ds)) :
    ({ d with lirc } : Daemon).Serving (tr ++ [.connected]) := by
  have hheard : heard (tr ++ [.connected]) = heard tr ++ [[]] := heard_append tr _
  refine ⟨h.listed.step hs,?_⟩
  rcases Lirc.step_cases hs with ⟨fd',heq,hl,_⟩ | ⟨_,_,heq,_⟩
  · obtain rfl := Call.processnewclient.inj heq
    rw [hheard,hl,Lirc.processnewclient,if_neg hpos]
    refine List.rel_append (h.served.imp fun c ls hc => ⟨hc.1.mono fd,hc.2⟩) (.cons ?_ .nil)
    exact ⟨.listed rfl (by simp) rfl rfl,by simp⟩
  · simp at heq

/-- What is under way was made by a run of `Main`, and so are the lines of the table. -/
theorem DaemonMove.keeps_serving {c : Settings} (h : DaemonMove d d' es) (hd : d.Serving tr)
    (hmain : ∃ as, run System.step (.initial c) as = some (d.system,mainEvents tr))
    (hlines : (written tr ++ d.pending.flatten).Perm (lines (mainEvents tr))) :
    d'.Serving (tr ++ es) := by
  cases h with
  | main a system es h =>
    have hheard : heard (tr ++ es.map .main) = heard tr := by rw [heard_append,heard_main]
    exact ⟨hd.listed,hheard ▸ hd.served⟩
  | wrote before after l rest h outcome =>
    obtain ⟨as,hr⟩ := hmain
    have hmem : l ∈ lines (mainEvents tr) := by
      refine hlines.subset (List.mem_append_right _ ?_)
      rw [h]
      simp
    exact hd.wrote (run_lines_mapped hr l hmem) outcome _
  | refused => simpa using hd
  | accepted fd hpos lirc ds h => exact hd.accepted hpos h

theorem Conn.splits {c : Conn} {ls : List Line} (h : ∀ l ∈ ls, l.Mapped)
    (hread : c.read = ls.map Line.fields) : c.Splits ls := by
  have hsep : ∀ l ∈ ls, l.Separable := fun l hl => (h l hl).separable
  have hiff := decodes_stream_iff hsep
  rw [Decodes,records_stream hsep] at hiff
  exact ⟨hread,hread ▸ hiff⟩

theorem Conn.Served.reads {clients : List Int} {c : Conn} {ls : List Line}
    (h : c.Served clients (ls.map Line.bytes)) (hmapped : ∀ l ∈ ls, l.Mapped) : c.Reads ls := by
  cases h with
  | listed ho hm hr hc =>
    have hread : c.read = ls.map Line.fields := by
      rw [Conn.read,hr,bytes_stream hmapped]
      exact records_stream fun l hl => (hmapped l hl).separable
    exact .connected ho hr (Conn.splits hmapped hread)
  | dropped ho before failed after hms part hpre hproper hr hc =>
    obtain ⟨seen,rest,rfl,hbefore,hrest⟩ := List.map_eq_append_iff.mp hms
    obtain ⟨l,rest,rfl,hl,_⟩ := List.map_eq_cons_iff.mp hrest
    subst hbefore hl
    have hseen : ∀ x ∈ seen, x.Mapped := fun x hx => hmapped x (by simp [hx])
    have hl := hmapped l (by simp)
    have hcut := hl.cut_no_newline hpre hproper
    have hread : c.read = seen.map Line.fields := by
      rw [Conn.read,hr,List.map_append,bytes_stream hseen]
      exact records_stream_append (fun x hx => (hseen x hx).separable) hcut
    have hpart : part ≠ l.bytes := by
      rintro rfl
      exact hcut hl.newline_mem
    exact .dropped ho seen l rest rfl part hpre hpart hr (Conn.splits hseen hread)

theorem DaemonMove.keeps_listed (h : DaemonMove d d' es) (hd : d.lirc.Listed) :
    d'.lirc.Listed := by
  cases h with
  | wrote before after l rest h outcome => exact hd.processevent _ _
  | accepted fd hpos lirc ds h => exact hd.step h
  | main | refused => exact hd

theorem DaemonMove.keeps_closed (h : DaemonMove d d' es) (hd : d.lirc.Listed) {i : Nat}
    {c : Conn} (hc : d.lirc.conns[i]? = some c) (ho : c.isOpen = false) :
    d'.lirc.conns[i]? = some c := by
  cases h with
  | wrote before after l rest h outcome =>
    exact Lirc.step_closed (a := .processevent l.bytes outcome) hd rfl hc ho
  | accepted fd hpos lirc ds h => exact Lirc.step_closed hd h hc ho
  | main | refused => exact hc

theorem Daemon.run_closed (hd : d.lirc.Listed) {more : List DaemonAction}
    (hr : run Daemon.step d more = some (d',tr)) {i : Nat} {c : Conn}
    (hc : d.lirc.conns[i]? = some c) (ho : c.isOpen = false) : d'.lirc.conns[i]? = some c := by
  have hI : d'.lirc.Listed ∧ d'.lirc.conns[i]? = some c := by
    refine invariant (I := fun d _ => (Daemon.lirc d).Listed ∧ d.lirc.conns[i]? = some c) ?_
      ⟨hd,hc⟩ hr
    intro d tr a d' es hI hs
    have hm := Daemon.step_move hs
    exact ⟨hm.keeps_listed hI.1,hm.keeps_closed hI.1 hI.2 ho⟩
  exact hI.2

/-- Whatever the threads do and whenever clients come and go, over any number of sessions:
no line is lost on the way or written twice, and each client's program reads, record by
record, the lines written since it was accepted, up to the one at which it was dropped, and
nothing after it. -/
theorem daemon_reads {c : Settings} {as : List DaemonAction}
    (hr : run Daemon.step (.initial c) as = some (d,tr)) :
    (∃ bs, run System.step (.initial c) bs = some (d.system,mainEvents tr)) ∧
      (written tr ++ d.pending.flatten).Perm (lines (mainEvents tr)) ∧
      List.Forall₂ Conn.Reads d.lirc.conns (heard tr) ∧
      ∀ more d' tr', run Daemon.step d more = some (d',tr') →
        ∀ (i : Nat) (c : Conn), d.lirc.conns[i]? = some c → c.isOpen = false →
          d'.lirc.conns[i]? = some c := by
  have hI : (∃ bs, run System.step (.initial c) bs = some (d.system,mainEvents tr)) ∧
      (written tr ++ d.pending.flatten).Perm (lines (mainEvents tr)) ∧ d.Serving tr := by
    refine invariant (I := fun d tr =>
      (∃ bs, run System.step (.initial c) bs = some (Daemon.system d,mainEvents tr)) ∧
        (written tr ++ d.pending.flatten).Perm (lines (mainEvents tr)) ∧ d.Serving tr) ?_ ?_ hr
    · rintro d tr a d' es ⟨hmain,hlines,hserving⟩ hs
      have hm := Daemon.step_move hs
      exact ⟨hm.keeps_main hmain,hm.keeps_lines hlines,hm.keeps_serving hserving hmain hlines⟩
    · exact ⟨⟨[],rfl⟩,.nil,Daemon.initial_serving c⟩
  obtain ⟨hmain,hlines,hserving⟩ := hI
  exact ⟨hmain,hlines,hserving.served.imp fun c ls h => h.1.reads h.2,
    fun more d' tr' hmore i c hc ho => Daemon.run_closed hserving.listed hmore hc ho⟩

end

/-- A client comes between the two lines of one key press, the first is then cut off in the
middle of a line, and a RESTART follows. -/
def cutOff : List DaemonAction :=
  List.replicate 4 (.main (.loop true)) ++
    [.processnewclient 5,.main (.callback (.keyPress ⟨UserControlCode.rightUp,0⟩)),
      .processevent 4 (fun _ => some 21),.processnewclient 6,
      .processevent 4 (fun fd => if fd = 5 then some 3 else some 18),.main (.callback .restart)]

theorem daemon_reads_cutOff :
    ∃ d tr, run Daemon.step (.initial .none) cutOff = some (d,tr) ∧
      d.lirc.conns.map Conn.read =
        [[["5".toList,"0".toList,"KEY_RIGHT".toList,"RPICEC".toList]],
          [["5".toList,"0".toList,"KEY_UP".toList,"RPICEC".toList]]] ∧
      List.Forall₂ Conn.Reads d.lirc.conns (heard tr) ∧
      ∀ more d' tr', run Daemon.step d more = some (d',tr') →
        d'.lirc.conns[0]? = d.lirc.conns[0]? := by
  have h : (run Daemon.step (.initial .none) cutOff).map
      (fun r => (r.1.lirc.conns.map Conn.read,r.1.lirc.conns.map Conn.isOpen)) =
      some ([[["5".toList,"0".toList,"KEY_RIGHT".toList,"RPICEC".toList]],
        [["5".toList,"0".toList,"KEY_UP".toList,"RPICEC".toList]]],[false,true]) := by decide
  obtain ⟨⟨d,tr⟩,hr,heq⟩ := Option.map_eq_some_iff.mp h
  simp only [Prod.mk.injEq] at heq
  obtain ⟨-,-,hreads,hclosed⟩ := daemon_reads hr
  have hopen : d.lirc.conns[0]?.map Conn.isOpen = some false := by
    rw [← List.getElem?_map,heq.2]
    rfl
  obtain ⟨k,hk,ho⟩ := Option.map_eq_some_iff.mp hopen
  refine ⟨d,tr,hr,heq.1,hreads,fun more d' tr' hmore => ?_⟩
  rw [hk]
  exact hclosed more d' tr' hmore 0 k hk ho

end Ceclircd
