import Ceclircd.CString
import Ceclircd.SocketFiles
import Ceclircd.LircHandles
set_option autoImplicit false

/-! The device path in `lirc::Open`: it reaches the kernel in full through `unlink` and `chmod`,
and cut to the size of `sun_path` through `bind`. -/

namespace Ceclircd
open CString SocketFiles RunTrace

inductive PathEvent (Entry Other : Type) where
  | unlink (removed : Option Entry)
  | bind (result : BindResult Entry Other)
  | chmod (changed : Option Entry)
  deriving DecidableEq, Repr

/-! What a run shows. -/

/-- The entry that each `bind` makes is the one that the `chmod` behind it changes and the one
that the next `unlink` removes, and no `bind` finds an entry that was made before. -/
structure EntryKept {Entry Other : Type} (tr : List (PathEvent Entry Other)) : Prop where
  chmodded : ∀ pre post e, tr = pre ++ .bind (.created e) :: post →
    ∃ rest, post = .chmod (some e) :: rest
  unlinked : ∀ pre mid post e removed,
    tr = pre ++ .bind (.created e) :: (mid ++ .unlink removed :: post) →
      (∀ r, .unlink r ∉ mid) → removed = some e
  free : ∀ mode round, .bind (.inUse (.socket mode (some round))) ∉ tr

def Pending {Entry Other : Type} (tr : List (PathEvent Entry Other)) (e : Entry) : Prop :=
  ∃ pre mid, tr = pre ++ .bind (.created e) :: mid ∧ ∀ r, .unlink r ∉ mid

section
variable {Entry Other : Type} {tr es : List (PathEvent Entry Other)}

theorem Pending.append {e : Entry} (h : Pending (tr ++ es) e) :
    (Pending tr e ∧ ∀ r, .unlink r ∉ es) ∨ .bind (.created e) ∈ es := by
  obtain ⟨pre,mid,heq,hmid⟩ := h
  rcases append_eq_split heq with ⟨q,htr,rfl⟩ | ⟨p,-,rfl⟩
  · exact .inl ⟨⟨pre,q,htr,fun r hr => hmid r (List.mem_append_left _ hr)⟩,
      fun r hr => hmid r (List.mem_append_right _ hr)⟩
  · exact .inr (by simp)

theorem EntryKept.unlink (h : EntryKept tr) {removed : Option Entry}
    (hpending : ∀ e, Pending tr e → removed = some e) : EntryKept (tr ++ [.unlink removed]) := by
  have hlast : ∀ (p post : List (PathEvent Entry Other)) (e : Entry),
      [.unlink removed] ≠ p ++ .bind (.created e) :: post := by
    intro p post e heq
    have hmem : (.bind (.created e) : PathEvent Entry Other) ∈ [.unlink removed] := by
      rw [heq]
      simp
    simp at hmem
  refine ⟨fun pre post e heq => ?_,fun pre mid post e r heq hmid => ?_,fun mode round hmem => ?_⟩
  · rcases append_eq_split heq with ⟨q,htr,rfl⟩ | ⟨p,-,hes⟩
    · obtain ⟨rest,rfl⟩ := h.chmodded pre q e htr
      exact ⟨_,rfl⟩
    · exact absurd hes (hlast p post e)
  · rcases append_eq_split heq with ⟨q,htr,hq⟩ | ⟨p,-,hes⟩
    · rcases append_eq_split hq.symm with ⟨q',hq',-⟩ | ⟨p,hmid',hes⟩
      · exact h.unlinked pre mid q' e r (by rw [htr,hq']) hmid
      · have hr : removed = r := by
          cases p with
          | nil => simpa using (List.cons.inj hes).1
          | cons x p => simp at hes
        rw [← hr]
        exact hpending e ⟨pre,q,htr,fun r' hr' => hmid r' (by rw [hmid']; exact List.mem_append_left _ hr')⟩
    · exact absurd hes (hlast p _ e)
  · rcases List.mem_append.mp hmem with hmem | hmem
    · exact h.free mode round hmem
    · simp at hmem

def Quiet (es : List (PathEvent Entry Other)) : Prop :=
  (∀ e, .bind (.created e) ∉ es) ∧ (∀ r, .unlink r ∉ es) ∧
    ∀ mode round, .bind (.inUse (.socket mode (some round))) ∉ es

/-- Events without an `unlink`, in which `chmod` comes right behind what was made. -/
theorem EntryKept.append (h : EntryKept tr) (hunlink : ∀ r, .unlink r ∉ es)
    (hchmod : ∀ p post e, es = p ++ .bind (.created e) :: post →
      ∃ rest, post = .chmod (some e) :: rest)
    (hfree : ∀ mode round, .bind (.inUse (.socket mode (some round))) ∉ es) :
    EntryKept (tr ++ es) := by
  refine ⟨fun pre post e heq => ?_,fun pre mid post e r heq hmid => ?_,fun mode round hmem => ?_⟩
  · rcases append_eq_split heq with ⟨q,htr,rfl⟩ | ⟨p,-,hes⟩
    · obtain ⟨rest,rfl⟩ := h.chmodded pre q e htr
      exact ⟨_,rfl⟩
    · exact hchmod p post e hes
  · rcases append_eq_split heq with ⟨q,htr,hq⟩ | ⟨p,-,hes⟩
    · rcases append_eq_split hq.symm with ⟨q',hq',-⟩ | ⟨p,-,hes⟩
      · exact h.unlinked pre mid q' e r (by rw [htr,hq']) hmid
      · exact absurd (by rw [hes]; simp) (hunlink r)
    · exact absurd (by rw [hes]; simp) (hunlink r)
  · rcases List.mem_append.mp hmem with hmem | hmem
    · exact h.free mode round hmem
    · exact hfree mode round hmem

theorem EntryKept.append_quiet (h : EntryKept tr) (hquiet : Quiet es) : EntryKept (tr ++ es) := by
  obtain ⟨hcreated,hunlink,hfree⟩ := hquiet
  exact h.append hunlink (fun p post e hes => absurd (by rw [hes]; simp) (hcreated e)) hfree

theorem EntryKept.append_created (h : EntryKept tr) (e : Entry) :
    EntryKept (tr ++ [.bind (.created e),.chmod (some e)]) := by
  refine h.append (by simp) (fun p post d hes => ?_) (by simp)
  cases p with
  | nil =>
    obtain ⟨hd,rfl⟩ := List.cons.inj hes
    obtain rfl : e = d := by simpa using hd
    exact ⟨[],rfl⟩
  | cons x p =>
    have hmem : (.bind (.created d) : PathEvent Entry Other) ∈ [.chmod (some e)] := by
      rw [(List.cons.inj hes).2]
      simp
    simp at hmem

end

/-! The calls. -/

structure LircFiles (Entry Other : Type) where
  handle : LircHandle
  fs : Files Entry Other
  rounds : Nat

def sizeofSunPath : Nat := 108

/-- `device.c_str()`, as far as C reads it. -/
def lircpath (device : List Char) : List Char := device.takeWhile fun c => c ≠ nul

section
variable {Entry Other : Type} [DecidableEq Entry]

def openFiles (K : Kernel Entry Other) (path name : List Char) (fs : Files Entry Other)
    (ok : Bool) (round : Nat) : (Files Entry Other × Bool) × List (PathEvent Entry Other) :=
  let (fs,removed) := K.unlink fs path
  let (fs,result) := K.bind fs name ok round
  if result.succeeds then
    let (fs,changed) := K.chmod fs path 0o666
    ((fs,true),[.unlink removed,.bind result,.chmod changed])
  else ((fs,false),[.unlink removed,.bind result])

/-- `lirc::Open` and `lirc::Close`; of `o.bind` it is used whether anything but the name makes
`bind` fail. `none` is an access outside a buffer. -/
def filesStep (K : Kernel Entry Other) (device : List Char) :
    StepFn (LircFiles Entry Other) LircCall (PathEvent Entry Other)
  | s, .close => some ({ s with handle := s.handle.close.1 },[])
  | s, .openWith o => do
    if o.socket < 0 then
      some ({ s with handle := (s.handle.openWith o).1.1, rounds := s.rounds + 1 },[])
    else
      -- `struct sockaddr_un sa = {0}`
      let sun_path ← strncpy (sizeofSunPath - 1) (List.replicate sizeofSunPath nul)
        (lircpath device ++ [nul])
      let name ← stringOf sun_path
      let ((fs,bound),es) := openFiles K (lircpath device) name s.fs (0 ≤ o.bind) s.rounds
      let o := { o with bind := if bound then 0 else -1 }
      some (⟨(s.handle.openWith o).1.1,fs,s.rounds + 1⟩,es)

theorem lircpath_noNul (device : List Char) : nul ∉ lircpath device := by
  intro hmem
  simpa using List.mem_takeWhile_imp hmem

theorem sunPath_name {path : List Char} (hpath : nul ∉ path) :
    ∃ buf, strncpy (sizeofSunPath - 1) (List.replicate sizeofSunPath nul) (path ++ [nul]) =
      some buf ∧ stringOf buf = some (path.take (sizeofSunPath - 1)) := by
  refine ⟨_,strncpy_text (by simp) hpath [],stringOf_eq_some_iff.mpr
    ⟨fun hmem => hpath (List.mem_of_mem_take hmem),
      List.replicate (sizeofSunPath - 1 - path.length) nul,?_⟩⟩
  rw [List.drop_replicate,← List.replicate_succ,List.replicate_append_replicate]
  rfl

theorem filesStep_open (K : Kernel Entry Other) (device : List Char) (s : LircFiles Entry Other)
    {o : OpenOutcome} (ho : ¬ o.socket < 0) :
    filesStep K device s (.openWith o) =
      (let r := openFiles K (lircpath device) ((lircpath device).take (sizeofSunPath - 1)) s.fs
        (0 ≤ o.bind) s.rounds
      some (⟨(s.handle.openWith { o with bind := if r.1.2 then 0 else -1 }).1.1,r.1.1,
        s.rounds + 1⟩,r.2)) := by
  obtain ⟨buf,hcopy,hname⟩ := sunPath_name (lircpath_noNul device)
  simp only [filesStep,if_neg ho,hcopy,hname,Option.bind_eq_bind,Option.bind_some]

/-! One `Open`, when the path fits `sun_path`. -/

variable {K : Kernel Entry Other} {path : List Char} {fs : Files Entry Other}

theorem openFiles_spec (h : K.Kept path 0o666 fs) (ok : Bool) (round : Nat) :
    K.Kept path 0o666 (openFiles K path path fs ok round).1.1 ∧
    ∃ rest, (openFiles K path path fs ok round).2 = .unlink (K.unlink fs path).2 :: rest ∧
      (Quiet rest ∨ ∃ e, rest = [.bind (.created e),.chmod (some e)] ∧
        Made (openFiles K path path fs ok round).1.1 e) := by
  obtain ⟨-,hnone⟩ := h.unlink
  unfold openFiles
  rcases K.bind_cases (K.unlink fs path).1 path ok round with
    ⟨e,hloc,he,hmay,hbind⟩ | ⟨hnil,hbind⟩ | hbind | ⟨e,node,he,hbind⟩
  · have hchmod := K.chmod_created hloc he hmay K.socketMode round 0o666
    simp only [hbind,BindResult.succeeds,if_true,hchmod]
    exact ⟨K.kept_created hloc he hmay hnone round 0o666,_,rfl,
      .inr ⟨e,rfl,0o666,round,Function.update_self ..⟩⟩
  · have hchmod : K.chmod (K.unlink fs path).1 path 0o666 = ((K.unlink fs path).1,none) := by
      simp [Kernel.chmod,hnil,K.follow_empty]
    simp only [hbind,BindResult.succeeds,if_true,hchmod]
    exact ⟨Kernel.kept_of_none hnone,_,rfl,.inl (by simp [Quiet])⟩
  · simp only [hbind,BindResult.succeeds]
    exact ⟨Kernel.kept_of_none hnone,_,rfl,.inl (by simp [Quiet])⟩
  · simp only [hbind,BindResult.succeeds]
    refine ⟨Kernel.kept_of_none hnone,_,rfl,.inl ⟨by simp,by simp,fun mode made hmem => ?_⟩⟩
    have hnode : node = .socket mode (some made) := by simpa [eq_comm] using hmem
    exact hnone e ⟨mode,made,hnode ▸ he⟩

/-! Runs. -/

structure PathInv (K : Kernel Entry Other) (path : List Char) (fs : Files Entry Other)
    (tr : List (PathEvent Entry Other)) : Prop where
  kept : K.Kept path 0o666 fs
  entries : EntryKept tr
  pending : ∀ e, Pending tr e → Made fs e

theorem PathInv.openFiles {tr : List (PathEvent Entry Other)} (h : PathInv K path fs tr)
    (ok : Bool) (round : Nat) :
    PathInv K path (Ceclircd.openFiles K path path fs ok round).1.1
      (tr ++ (Ceclircd.openFiles K path path fs ok round).2) := by
  obtain ⟨hkept,rest,hevents,hrest⟩ := openFiles_spec h.kept ok round
  have hfirst := h.entries.unlink fun e he => h.kept.unlink.1 e (h.pending e he)
  have hmade : ∀ e, Pending (tr ++ [.unlink (K.unlink fs path).2] ++ rest) e →
      .bind (.created e) ∈ rest := by
    intro e he
    rcases he.append with ⟨he,-⟩ | hmem
    · rcases he.append with ⟨-,hno⟩ | hmem
      · exact absurd List.mem_cons_self (hno _)
      · simp at hmem
    · exact hmem
  rw [hevents,List.append_cons]
  rcases hrest with hquiet | ⟨d,rfl,hd⟩
  · exact ⟨hkept,hfirst.append_quiet hquiet,fun e he => absurd (hmade e he) (hquiet.1 e)⟩
  · refine ⟨hkept,hfirst.append_created d,fun e he => ?_⟩
    obtain rfl : e = d := by simpa using hmade e he
    exact hd

theorem PathInv.step {device : List Char} (hfits : (lircpath device).length < sizeofSunPath)
    {s : LircFiles Entry Other} {tr : List (PathEvent Entry Other)}
    (h : PathInv K (lircpath device) s.fs tr) (call : LircCall) :
    ∃ t es, filesStep K device s call = some (t,es) ∧
      PathInv K (lircpath device) t.fs (tr ++ es) := by
  cases call with
  | close => exact ⟨_,_,rfl,by simpa using h⟩
  | openWith o =>
    by_cases ho : o.socket < 0
    · exact ⟨_,_,if_pos ho,by simpa using h⟩
    · have hname : (lircpath device).take (sizeofSunPath - 1) = lircpath device :=
        List.take_of_length_le (by omega)
      have hstep := filesStep_open K device s ho
      rw [hname] at hstep
      exact ⟨_,_,hstep,h.openFiles (0 ≤ o.bind) s.rounds⟩

/-- With a path that fits `sun_path`, in every run of `Open` and `Close` from any file system,
each entry that `bind` makes is given its mode by the same `Open` and removed by the next
`unlink`, and no `bind` finds one in its way. -/
theorem entries_kept (K : Kernel Entry Other) {device : List Char}
    (hfits : (lircpath device).length < sizeofSunPath) {fs : Files Entry Other}
    (hfs : ∀ e, ¬ Made fs e) (handle : LircHandle) (calls : List LircCall) :
    ∃ s tr, run (filesStep K device) ⟨handle,fs,0⟩ calls = some (s,tr) ∧ EntryKept tr ∧
      ∀ e mode round, s.fs e = some (.socket mode (some round)) →
        K.locate s.fs (lircpath device) = some e ∧ mode = 0o666 := by
  have hinit : PathInv K (lircpath device) fs [] :=
    ⟨Kernel.kept_of_none hfs,⟨by simp,by simp,by simp⟩,fun e he => by
      obtain ⟨pre,mid,heq,-⟩ := he
      simp at heq⟩
  obtain ⟨s,tr,hr,hinv⟩ := @exists_run _ _ _ (filesStep K device)
    (fun s tr => PathInv K (lircpath device) s.fs tr) (fun _ _ call h => h.step hfits call)
    ⟨handle,fs,0⟩ [] hinit calls
  exact ⟨s,tr,hr,hinv.entries,fun e mode round he =>
    ⟨(hinv.kept e mode round he).1,(hinv.kept e mode round he).2.1⟩⟩

end

/-- A directory in which each path is an entry of its own, and everything is permitted. -/
def flat : Kernel (List Char) Unit where
  locate _ path := if path = [] then none else some path
  follow _ path := if path = [] then none else some path
  mayCreate _ _ := true
  mayRemove _ _ := true
  mayChange _ _ := true
  socketMode := 0o755
  chmodOther fs _ := fs
  locate_empty _ := rfl
  follow_empty _ := rfl
  locate_socket _ _ _ _ _ h _ := h
  follow_socket _ _ _ _ _ h _ := h
  mayRemove_created _ _ _ _ _ _ := rfl
  mayChange_created _ _ _ _ _ _ := rfl

def openCall : LircCall := .openWith ⟨3,0,0,0,1⟩

theorem entries_kept_restart :
    ∃ s tr, run (filesStep flat ['/','r','u','n','/','l']) ⟨LircHandle.initial 0,fun _ => none,0⟩
        [openCall,.close,openCall] = some (s,tr) ∧ EntryKept tr ∧
      ∀ e mode round, s.fs e = some (.socket mode (some round)) →
        flat.locate s.fs (lircpath ['/','r','u','n','/','l']) = some e ∧ mode = 0o666 :=
  entries_kept flat (by decide) (by rintro e ⟨mode,round,h⟩; simp at h) (.initial 0)
    [openCall,.close,openCall]

/-! A path that does not fit. -/

theorem openFiles_flat_first {path name : List Char} (hne : name ≠ []) (hcut : path ≠ name)
    (round : Nat) : openFiles flat path name (fun _ => none) true round =
      ((Function.update (fun _ => none) name (some (.socket 0o755 (some round))),true),
        [.unlink none,.bind (.created name),.chmod none]) := by
  by_cases hpath : path = []
  · simp [openFiles,Kernel.unlink,Kernel.bind,Kernel.chmod,flat,hne,hpath,BindResult.succeeds]
  · simp [openFiles,Kernel.unlink,Kernel.bind,Kernel.chmod,flat,hne,hpath,hcut,
      BindResult.succeeds]

theorem openFiles_flat_second {path name : List Char} (hne : name ≠ []) (hcut : path ≠ name)
    (mode : Nat) (made : Option Nat) (round : Nat) :
    openFiles flat path name (Function.update (fun _ => none) name (some (.socket mode made))) true
        round =
      ((Function.update (fun _ => none) name (some (.socket mode made)),false),
        [.unlink none,.bind (.inUse (.socket mode made))]) := by
  by_cases hpath : path = []
  · simp [openFiles,Kernel.unlink,Kernel.bind,flat,hne,hpath,BindResult.succeeds]
  · simp [openFiles,Kernel.unlink,Kernel.bind,flat,hne,hpath,hcut,BindResult.succeeds]

theorem flat_restart {device : List Char} (hlong : sizeofSunPath ≤ (lircpath device).length)
    (handle : LircHandle) :
    ∃ s, run (filesStep flat device) ⟨handle,fun _ => none,0⟩ [openCall,.close,openCall] =
      some (s,[.unlink none,.bind (.created ((lircpath device).take (sizeofSunPath - 1))),
        .chmod none,.unlink none,.bind (.inUse (.socket 0o755 (some 0)))]) := by
  have hne : (lircpath device).take (sizeofSunPath - 1) ≠ [] := by
    intro hnil
    have hlen := congrArg List.length hnil
    simp only [List.length_take,List.length_nil,sizeofSunPath] at hlen hlong
    omega
  have hcut : lircpath device ≠ (lircpath device).take (sizeofSunPath - 1) := by
    intro heq
    have hlen := congrArg List.length heq
    simp only [List.length_take,sizeofSunPath] at hlen hlong
    omega
  have hfirst := @filesStep_open _ _ _ flat device ⟨handle,fun _ => none,0⟩ ⟨3,0,0,0,1⟩ (by decide)
  dsimp only at hfirst
  rw [show decide ((0 : Int) ≤ 0) = true from rfl,openFiles_flat_first hne hcut] at hfirst
  obtain ⟨handle₁,hopen⟩ : ∃ handle₁, filesStep flat device ⟨handle,fun _ => none,0⟩ openCall =
      some (⟨handle₁,Function.update (fun _ => none) ((lircpath device).take (sizeofSunPath - 1))
        (some (.socket 0o755 (some 0))),1⟩,[.unlink none,
          .bind (.created ((lircpath device).take (sizeofSunPath - 1))),.chmod none]) :=
    ⟨_,hfirst⟩
  have hsecond := @filesStep_open _ _ _ flat device ⟨handle₁.close.1,
    Function.update (fun _ => none) ((lircpath device).take (sizeofSunPath - 1))
      (some (.socket 0o755 (some 0))),1⟩ ⟨3,0,0,0,1⟩ (by decide)
  dsimp only at hsecond
  rw [show decide ((0 : Int) ≤ 0) = true from rfl,openFiles_flat_second hne hcut] at hsecond
  exact ⟨_,run_cons_iff.mpr ⟨_,_,_,hopen,run_cons_iff.mpr ⟨_,_,_,rfl,run_cons_iff.mpr
    ⟨_,_,_,hsecond,rfl,rfl⟩,rfl⟩,rfl⟩⟩

/-- A path of 108 characters: the restart fails on the socket of the first `Open`. -/
theorem long_path_in_use :
    ¬ ∀ (K : Kernel (List Char) Unit) (device : List Char) (fs : Files (List Char) Unit)
      (handle : LircHandle) (calls : List LircCall), (∀ e, ¬ Made fs e) →
      ∃ s tr, run (filesStep K device) ⟨handle,fs,0⟩ calls = some (s,tr) ∧ EntryKept tr ∧
        ∀ e mode round, s.fs e = some (.socket mode (some round)) →
          K.locate s.fs (lircpath device) = some e ∧ mode = 0o666 := by
  intro h
  have hnul : lircpath (['/','t','m','p','/'] ++ List.replicate 103 'a') =
      ['/','t','m','p','/'] ++ List.replicate 103 'a' := by
    rw [lircpath,List.takeWhile_eq_self_iff]
    intro c hc
    rcases List.mem_append.mp hc with hc | hc
    · revert hc
      simp only [List.mem_cons,List.not_mem_nil,or_false]
      rintro (rfl | rfl | rfl | rfl | rfl) <;> decide
    · rw [List.eq_of_mem_replicate hc]
      decide
  have hlong : sizeofSunPath ≤ (lircpath (['/','t','m','p','/'] ++ List.replicate 103 'a')).length := by
    rw [hnul]
    simp [sizeofSunPath]
  obtain ⟨s,hs⟩ := flat_restart hlong (.initial 0)
  obtain ⟨t,tr,hr,hkept,-⟩ := h flat (['/','t','m','p','/'] ++ List.replicate 103 'a')
    (fun _ => none) (.initial 0) [openCall,.close,openCall]
    (by rintro e ⟨mode,round,he⟩; simp at he)
  rw [hs] at hr
  obtain ⟨rfl,rfl⟩ := Prod.mk.inj (Option.some.inj hr)
  exact hkept.free 0o755 0 (by simp)

end Ceclircd
