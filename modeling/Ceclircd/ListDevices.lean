import Ceclircd.AddressStream
import Ceclircd.CecObject
set_option autoImplicit false

/-! What `Cec::listDevices` prints for `-l`, and a reader that takes it apart again. -/

namespace Ceclircd
open InputStream

structure DeviceReply where
  physicalAddress : PhysicalAddress
  name : List Char
  vendor : List Char

/-- What libcec answers for one adapter: the result of `Open`, and what `GetActiveDevices` and the
queries behind it give. -/
structure AdapterReply where
  opens : Bool
  active : Nat → Bool
  device : Nat → DeviceReply

/-- One line of the inner loop, without its `endl`; `logical` is `ToString(logical_addres)`. -/
def deviceLine (logical : List Char) (d : DeviceReply) : List Char :=
  '\t' :: (logical ++ '@' :: (printPhysical d.physicalAddress ++ ' ' :: (d.name ++
    " (".toList ++ d.vendor ++ [')'])))

def failedLine : List Char := "\tFailed to open".toList

def adapterLine (i : Nat) (device : CecAdapter) : List Char :=
  '[' :: (Nat.toDigits 10 i ++ "] port:".toList ++ device.comm.toList ++ " path:".toList ++
    device.path.toList)

/-- One pass of the outer loop. It goes on with the queries when `Open` has failed. -/
def adapterLines (logical : Nat → List Char) (i : Nat) (device : CecAdapter) (r : AdapterReply) :
    List (List Char) :=
  adapterLine i device :: (if r.opens then [] else [failedLine]) ++
    ((List.range 16).filter r.active).map fun j => deviceLine (logical j) (r.device j)

def endLines (ls : List (List Char)) : List Char := ls.flatMap (· ++ ['\n'])

/-- `ret`, an `int8_t`, as the number of passes of the loop. -/
def listedAdapters (result : Int) : Nat := (BitVec.ofInt 8 result).toInt.toNat

/-- What `Cec::listDevices` puts into `out` after `init()`. -/
def Cec.listDevicesOut (logical : Nat → List Char) (result : Int) (devices : Nat → CecAdapter)
    (replies : Nat → AdapterReply) : List Char :=
  if (BitVec.ofInt 8 result).toInt < 0 then []
  else endLines ((List.range (listedAdapters result)).flatMap fun i =>
    adapterLines logical i (devices i) (replies i))

/-- The method as a whole. Nothing reaches a stream that is bad, as `cout` is while `init` has
taken its buffer away. -/
def CecObject.listDevices (o : CecObject) (adapter : Option Nat) (logical : Nat → List Char)
    (result : Int) (devices : Nat → CecAdapter) (replies : Nat → AdapterReply) :
    (CecObject × Option String) × List Char :=
  let ((o,threw),_) := o.init adapter
  match threw with
  | some what => ((o,some what),[])
  | none =>
    ((o,none),if o.cout.bad then [] else Cec.listDevicesOut logical result devices replies)

/-! The reader. -/

structure Listed where
  failed : Bool
  devices : List (List Char × Option PhysicalAddress)
  deriving DecidableEq, Repr

def readAddress (cs : List Char) : Option PhysicalAddress :=
  match extractPhysical (.ofChars cs) ⟨0⟩ with
  | some (s,a) => if s.fail then none else some a
  | none => none

/-- From the last line to the first: `r` is what stands below, the adapters and the lines that
belong to the one above them. -/
def readLine (line : List Char) (r : List Listed × Listed) : List Listed × Listed :=
  match line with
  | '[' :: _ => (r.2 :: r.1,⟨false,[]⟩)
  | '\t' :: cs =>
    if '@' ∈ cs then
      (r.1,{ r.2 with devices :=
        (cs.takeWhile (· ≠ '@'),readAddress ((cs.dropWhile (· ≠ '@')).drop 1)) :: r.2.devices })
    else (r.1,{ r.2 with failed := true })
  | _ => r

def readReport (text : List Char) : List Listed :=
  ((text.splitOn '\n').foldr readLine ([],⟨false,[]⟩)).1

/-- The texts of libcec leave the report's own marks alone. -/
structure Readable (logical : Nat → List Char) (n : Nat) (devices : Nat → CecAdapter)
    (replies : Nat → AdapterReply) : Prop where
  adapter : ∀ i < n, '\n' ∉ (devices i).comm.toList ∧ '\n' ∉ (devices i).path.toList
  logical : ∀ j < 16, '\n' ∉ logical j ∧ '@' ∉ logical j
  device : ∀ i < n, ∀ j < 16, '\n' ∉ ((replies i).device j).name ∧
    '\n' ∉ ((replies i).device j).vendor

theorem splitOn_endLines {ls : List (List Char)} (h : ∀ l ∈ ls, '\n' ∉ l) :
    (endLines ls).splitOn '\n' = ls ++ [[]] := by
  induction ls with
  | nil => rfl
  | cons l ls ih =>
    have hcons : endLines (l :: ls) = l ++ '\n' :: endLines ls := by simp [endLines]
    rw [hcons,List.splitOn_append_cons_self_of_not_mem (h l (by simp)),
      ih fun x hx => h x (by simp [hx])]
    rfl

theorem readAddress_printed (a : PhysicalAddress) (cs : List Char) :
    readAddress (printPhysical a ++ ' ' :: cs) = some a := by
  have hread := @extractPhysical_printed [] (' ' :: cs) (by simp) (by simp [isSpace]) a ⟨0⟩
  rw [List.nil_append] at hread
  rw [readAddress,hread]
  rfl

theorem readLine_device {name : List Char} (h : '@' ∉ name) (d : DeviceReply)
    (r : List Listed × Listed) : readLine (deviceLine name d) r =
      (r.1,{ r.2 with devices := (name,some d.physicalAddress) :: r.2.devices }) := by
  have hne : ∀ c ∈ name, (decide (c ≠ '@')) = true := by
    intro c hc
    rw [decide_eq_true_eq]
    rintro rfl
    exact h hc
  simp only [readLine,deviceLine]
  rw [if_pos (by simp),List.takeWhile_append_of_pos hne,List.dropWhile_append_of_pos hne]
  simp [readAddress_printed]

theorem readLine_failed (r : List Listed × Listed) :
    readLine failedLine r = (r.1,{ r.2 with failed := true }) := rfl

theorem readLine_adapter (i : Nat) (device : CecAdapter) (r : List Listed × Listed) :
    readLine (adapterLine i device) r = (r.2 :: r.1,⟨false,[]⟩) := rfl

def listed (logical : Nat → List Char) (r : AdapterReply) : Listed :=
  ⟨!r.opens,((List.range 16).filter r.active).map fun j =>
    (logical j,some (r.device j).physicalAddress)⟩

theorem foldr_deviceLines {logical : Nat → List Char} (r : AdapterReply) (gs : List Listed)
    (js : List Nat) (h : ∀ j ∈ js, '@' ∉ logical j) :
    (js.map fun j => deviceLine (logical j) (r.device j)).foldr readLine (gs,⟨false,[]⟩) =
      (gs,⟨false,js.map fun j => (logical j,some (r.device j).physicalAddress)⟩) := by
  induction js with
  | nil => rfl
  | cons j js ih =>
    rw [List.map_cons,List.foldr_cons,ih fun k hk => h k (by simp [hk]),
      readLine_device (h j (by simp))]
    rfl

theorem foldr_adapterLines {logical : Nat → List Char} (h : ∀ j < 16, '@' ∉ logical j) (i : Nat)
    (device : CecAdapter) (r : AdapterReply) (gs : List Listed) :
    (adapterLines logical i device r).foldr readLine (gs,⟨false,[]⟩) =
      (listed logical r :: gs,⟨false,[]⟩) := by
  have hdevices := foldr_deviceLines r gs ((List.range 16).filter r.active) fun j hj =>
    h j (List.mem_range.mp (List.mem_filter.mp hj).1)
  unfold adapterLines
  rw [List.foldr_append,hdevices,List.foldr_cons]
  cases ho : r.opens with
  | true => simp [readLine_adapter,listed,ho]
  | false => simp [readLine_failed,readLine_adapter,listed,ho]

section
variable {logical : Nat → List Char} {devices : Nat → CecAdapter} {replies : Nat → AdapterReply}

theorem Readable.lines {n i : Nat} (h : Readable logical n devices replies) (hi : i < n) :
    ∀ l ∈ adapterLines logical i (devices i) (replies i), '\n' ∉ l := by
  obtain ⟨hcomm,hpath⟩ := h.adapter i hi
  have hdigits : '\n' ∉ Nat.toDigits 10 i := fun hmem =>
    absurd (Nat.isDigit_of_mem_toDigits (by decide) (by decide) hmem) (by decide)
  intro l hl
  simp only [adapterLines,List.mem_append,List.mem_cons,List.mem_map,List.mem_filter,
    List.mem_range] at hl
  rcases hl with (rfl | hl) | ⟨j,⟨hj,_⟩,rfl⟩
  · simp [adapterLine,hdigits,hcomm,hpath]
  · split at hl
    · simp at hl
    · obtain rfl := List.mem_singleton.mp hl
      decide
  · obtain ⟨hname,hvendor⟩ := h.device i hi j hj
    have hprinted : '\n' ∉ printPhysical ((replies i).device j).physicalAddress := fun hmem =>
      absurd (printPhysical_noSpace _ _ hmem) (by decide)
    simp [deviceLine,(h.logical j hj).1,hprinted,hname,hvendor]

theorem foldr_report (h : ∀ j < 16, '@' ∉ logical j) (is : List Nat) :
    (is.flatMap fun i => adapterLines logical i (devices i) (replies i)).foldr readLine
        ([],⟨false,[]⟩) = (is.map fun i => listed logical (replies i),⟨false,[]⟩) := by
  induction is with
  | nil => rfl
  | cons i is ih =>
    rw [List.flatMap_cons,List.foldr_append,ih,foldr_adapterLines h]
    rfl

theorem report_readBack {result : Int}
    (h : Readable logical (listedAdapters result) devices replies) :
    readReport (Cec.listDevicesOut logical result devices replies) =
      (List.range (listedAdapters result)).map fun i => listed logical (replies i) := by
  unfold Cec.listDevicesOut
  split
  case isTrue hneg =>
    have hzero : listedAdapters result = 0 := Int.toNat_of_nonpos (Int.le_of_lt hneg)
    rw [hzero]
    rfl
  case isFalse =>
    have hlines : ∀ l ∈ (List.range (listedAdapters result)).flatMap fun i =>
        adapterLines logical i (devices i) (replies i), '\n' ∉ l := by
      intro l hl
      obtain ⟨i,hi,hl⟩ := List.mem_flatMap.mp hl
      exact h.lines (List.mem_range.mp hi) l hl
    rw [readReport,splitOn_endLines hlines,List.foldr_append]
    exact congrArg Prod.fst (foldr_report (fun j hj => (h.logical j hj).2) _)

/-- `init` gives `cout` its buffer back, and with it the flags. -/
theorem init_cout {o : CecObject} (h : o.cout = .initial) (adapter : Option Nat) :
    (o.init adapter).1.1.cout = .initial := by
  unfold CecObject.init
  cases o.cec with
  | some a => exact h
  | none =>
    cases adapter with
    | none | some _ =>
      simp only [h]
      rfl

/-- `-l` either prints nothing and throws, since libcec could not be initialised, or its report
can be taken apart again: an entry for each adapter found, with whether it could be opened, and
its devices in order, each with the physical address libcec gave. -/
theorem listDevices_readBack {o : CecObject} (hc : o.cout = .initial) (adapter : Option Nat)
    {result : Int} (h : Readable logical (listedAdapters result) devices replies) :
    ((o.listDevices adapter logical result devices replies).1.2 = none ∧
        readReport (o.listDevices adapter logical result devices replies).2 =
          (List.range (listedAdapters result)).map fun i => listed logical (replies i)) ∨
      (o.cec = none ∧ adapter = none ∧
        (o.listDevices adapter logical result devices replies).1.2 =
          some "Failed to initialise libCEC" ∧
        (o.listDevices adapter logical result devices replies).2 = []) := by
  have hcout := init_cout hc adapter
  unfold CecObject.listDevices
  rcases hi : o.init adapter with ⟨⟨o',threw⟩,calls⟩
  rw [hi] at hcout
  cases threw with
  | none =>
    have hgood : o'.cout.bad = false := congrArg Cout.bad hcout
    refine .inl ⟨rfl,?_⟩
    simp only [hgood,Bool.false_eq_true,if_false]
    exact report_readBack h
  | some what =>
    unfold CecObject.init at hi
    cases ho : o.cec with
    | some a => simp [ho] at hi
    | none =>
      cases adapter with
      | some a => simp [ho] at hi
      | none =>
        simp only [ho,Prod.mk.injEq,Option.some.injEq] at hi
        exact .inr ⟨rfl,rfl,by rw [← hi.1.2],rfl⟩

end

theorem listDevices_readBack_two :
    readReport (CecObject.initial.listDevices (some 1)
      (fun j => if j = 0 then ['T','V'] else ['R','e','c']) 2
      (fun i => if i = 0 then ⟨"/sys/usb1","/dev/ttyACM0"⟩ else ⟨"/sys/usb2","/dev/ttyACM1"⟩)
      (fun i => ⟨i = 0,fun j => i = 0 ∧ j ≤ 1,
        fun j => ⟨⟨if j = 0 then 0x0000#16 else 0x2100#16⟩,['T','V'],['S','o','n','y']⟩⟩)).2 =
      [⟨false,[(['T','V'],some ⟨0x0000#16⟩),(['R','e','c'],some ⟨0x2100#16⟩)]⟩,⟨true,[]⟩] := by
  have hreadable : Readable (fun j => if j = 0 then ['T','V'] else ['R','e','c'])
      (listedAdapters 2)
      (fun i => if i = 0 then ⟨"/sys/usb1","/dev/ttyACM0"⟩ else ⟨"/sys/usb2","/dev/ttyACM1"⟩)
      (fun i => ⟨i = 0,fun j => i = 0 ∧ j ≤ 1,
        fun j => ⟨⟨if j = 0 then 0x0000#16 else 0x2100#16⟩,['T','V'],['S','o','n','y']⟩⟩) :=
    ⟨by decide,by decide,by simp⟩
  rcases listDevices_readBack (o := .initial) rfl (some 1) hreadable with ⟨_,hread⟩ | ⟨_,hnone,_⟩
  · rw [hread]
    decide
  · simp at hnone

end Ceclircd
