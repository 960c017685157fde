import Ceclircd.CString
import Ceclircd.CecTypes
set_option autoImplicit false

/-! The configuration that libcec is opened with, and the name in it: `Main::getCecName`
into `cec_name`, and from there `Cec::Cec` into `strDeviceName`. -/

namespace Ceclircd
open CString

structure CecConfiguration where
  strDeviceName : List Char
  iPhysicalAddress : BitVec 16
  baseDevice : Int
  iHDMIPort : BitVec 8
  deriving DecidableEq, Repr

def cecName : List Char := ['R','a','s','p','b','e','r','r','y','P','I']

/-- `sizeof(HOST_NAME_MAX)`: the macro is a number, so this is the size of an `int`. -/
def sizeofHostNameMax : Nat := 4

inductive GetHostName (size : Nat) (host : List Char) : Int → List Char → Prop where
  | ok (after : List Char) (hlen : (host ++ nul :: after).length = size) :
      GetHostName size host 0 (host ++ nul :: after)
  | failed {ret : Int} (hret : ret < 0) (buf : List Char) (hlen : buf.length = size) :
      GetHostName size host ret buf

def getCecName (ret : Int) (buf : List Char) : Option (List Char) :=
  if ret < 0 then strncpy sizeofHostNameMax buf (cecName ++ [nul]) else some buf

/-- `Cec::Cec`; `device` is what `config.Clear()` left in `strDeviceName`. -/
def cecInitial (device name : List Char) : Option CecConfiguration := do
  let strDeviceName ← strncpy device.length device name
  some ⟨strDeviceName,0xFFFF,cecDeviceUnknown,0⟩

def mainNames (ret : Int) (buf device : List Char) : Option (List Char × CecConfiguration) := do
  let name ← getCecName ret buf
  let config ← cecInitial device name
  some (name,config)

theorem cecInitial_iff {name text device : List Char} (hname : stringOf name = some text) :
    (∃ config, cecInitial device name = some config ∧
      config.strDeviceName.length = device.length ∧
      stringOf config.strDeviceName = some (text.take (device.length - 1))) ↔
    text.length < device.length := by
  obtain ⟨htext,rest,rfl⟩ := stringOf_eq_some_iff.mp hname
  have hcopy := strncpy_text (Nat.le_refl device.length) htext rest
  have hlen := (strncpy_length hcopy).2
  constructor
  · rintro ⟨config,hconfig,-,hread⟩
    rw [cecInitial,hcopy] at hconfig
    obtain rfl := Option.some.inj hconfig
    by_contra hlong
    rw [stringOf_strncpy_long htext (by omega) hcopy,List.drop_length] at hread
    simp [stringOf] at hread
  · intro hshort
    refine ⟨⟨_,0xFFFF,cecDeviceUnknown,0⟩,by rw [cecInitial,hcopy]; rfl,hlen,?_⟩
    rw [show text.take (device.length - 1) = text from List.take_of_length_le (by omega)]
    exact stringOf_strncpy_short htext hshort hcopy

theorem getCecName_failed_iff {ret : Int} (hret : ret < 0) (buf : List Char) :
    (∃ name, getCecName ret buf = some name ∧ name.length = buf.length ∧
      stringOf name = some cecName) ↔
    ∃ rest, buf.drop sizeofHostNameMax = ['b','e','r','r','y','P','I'] ++ nul :: rest := by
  have hcecName : nul ∉ cecName := by decide
  rw [getCecName,if_pos hret]
  constructor
  · rintro ⟨name,hname,-,hread⟩
    rw [stringOf_strncpy_long hcecName (by decide) hname,Option.map_eq_some_iff] at hread
    obtain ⟨tail,htail,heq⟩ := hread
    obtain ⟨-,rest,hdrop⟩ := stringOf_eq_some_iff.mp htail
    have htext : tail = ['b','e','r','r','y','P','I'] := by
      simpa [cecName,sizeofHostNameMax] using heq
    exact ⟨rest,by rw [hdrop,htext]⟩
  · rintro ⟨rest,hdrop⟩
    have hlen : sizeofHostNameMax ≤ buf.length := by
      have := congrArg List.length hdrop
      simp only [List.length_drop,List.length_append,List.length_cons] at this
      omega
    have hcopy := strncpy_text hlen hcecName []
    refine ⟨_,hcopy,(strncpy_length hcopy).2,?_⟩
    rw [stringOf_strncpy_long hcecName (by decide) hcopy,hdrop,
      stringOf_eq_some_iff.mpr ⟨by decide,rest,rfl⟩]
    rfl

theorem mainNames_split {ret : Int} {buf device text : List Char} {size : Nat} :
    (∃ name config, mainNames ret buf device = some (name,config) ∧
      name.length = size ∧ stringOf name = some text ∧
      config.strDeviceName.length = device.length ∧
      stringOf config.strDeviceName = some (text.take (device.length - 1))) ↔
    text.length < device.length ∧ ∃ name, getCecName ret buf = some name ∧
      name.length = size ∧ stringOf name = some text := by
  constructor
  · rintro ⟨name,config,hboth,hlen,hread,hconfig⟩
    simp only [mainNames,Option.bind_eq_bind,Option.bind_eq_some_iff] at hboth
    obtain ⟨name',hname,config',hinit,hpair⟩ := hboth
    obtain ⟨rfl,rfl⟩ := Prod.mk.inj (Option.some.inj hpair)
    exact ⟨(cecInitial_iff hread).mp ⟨_,hinit,hconfig⟩,_,hname,hlen,hread⟩
  · rintro ⟨hshort,name,hname,hlen,hread⟩
    obtain ⟨config,hinit,hconfig⟩ := (cecInitial_iff hread).mpr hshort
    exact ⟨name,config,by rw [mainNames,hname]; simp [hinit],hlen,hread,hconfig⟩

/-- Both names are terminated and right exactly when the host name fits the second buffer,
or the fallback finds its own tail in the first one and fits as well. -/
theorem mainNames_iff {size : Nat} {host : List Char} (hhost : nul ∉ host) {ret : Int}
    {buf : List Char} (hget : GetHostName size host ret buf) (device : List Char) :
    (∃ name config, mainNames ret buf device = some (name,config) ∧
      name.length = size ∧ stringOf name = some (if ret < 0 then cecName else host) ∧
      config.strDeviceName.length = device.length ∧
      stringOf config.strDeviceName =
        some ((if ret < 0 then cecName else host).take (device.length - 1))) ↔
    if ret < 0 then cecName.length < device.length ∧
      ∃ rest, buf.drop sizeofHostNameMax = ['b','e','r','r','y','P','I'] ++ nul :: rest
    else host.length < device.length := by
  cases hget with
  | ok after hlen =>
    have hok : ¬ (0 : Int) < 0 := by decide
    have hname : ∃ name, getCecName 0 (host ++ nul :: after) = some name ∧
        name.length = size ∧ stringOf name = some host :=
      ⟨_,rfl,hlen,stringOf_eq_some_iff.mpr ⟨hhost,after,rfl⟩⟩
    simp only [if_neg hok]
    rw [mainNames_split]
    exact and_iff_left hname
  | failed hret buf hlen =>
    simp only [if_pos hret]
    rw [mainNames_split,← hlen]
    exact and_congr_right fun _ => getCecName_failed_iff hret buf

theorem mainNames_short_host :
    ∃ name config, mainNames 0 (['p','i'] ++ nul :: List.replicate 61 'x')
        (List.replicate 13 nul) = some (name,config) ∧
      name.length = 64 ∧ stringOf name = some ['p','i'] ∧
      config.strDeviceName.length = 13 ∧ stringOf config.strDeviceName = some ['p','i'] := by
  have hget : GetHostName 64 ['p','i'] 0 (['p','i'] ++ nul :: List.replicate 61 'x') :=
    .ok (List.replicate 61 'x') (by decide)
  have hfits : ['p','i'].length < (List.replicate 13 nul).length := by decide
  exact (mainNames_iff (by decide) hget (List.replicate 13 nul)).mpr hfits

/-- Over a buffer of NULs the fallback reads `Rasp`. -/
theorem fallback_cut :
    ¬ ∀ (size : Nat) (host : List Char) (ret : Int) (buf device : List Char), nul ∉ host →
      GetHostName size host ret buf → 2 ≤ device.length →
      ∃ name config, mainNames ret buf device = some (name,config) ∧
        name.length = size ∧ stringOf name = some (if ret < 0 then cecName else host) ∧
        config.strDeviceName.length = device.length ∧
        stringOf config.strDeviceName =
          some ((if ret < 0 then cecName else host).take (device.length - 1)) := by
  intro h
  have hnames := h 64 ['p','i'] (-1) (List.replicate 64 nul) (List.replicate 13 nul) (by decide)
    (.failed (by decide) _ (by simp)) (by simp)
  rw [if_pos (by decide : (-1 : Int) < 0),mainNames_split] at hnames
  obtain ⟨-,name,hname,hlen,hread⟩ := hnames
  obtain ⟨rest,hrest⟩ := (getCecName_failed_iff (by decide) _).mp
    ⟨name,hname,hlen.trans (List.length_replicate).symm,hread⟩
  simp [sizeofHostNameMax,List.replicate_succ,nul] at hrest

end Ceclircd
