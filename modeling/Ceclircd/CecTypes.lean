import Mathlib.Data.Int.Notation
set_option autoImplicit false

/-! The part of libcec's interface that the daemon reads. The numbers are those of
the CEC user control codes and operands, as libcec's headers name them. -/

namespace Ceclircd

/-! `cec_user_control_code`, by its underlying integer. -/
namespace UserControlCode

def select : Int := 0x00
def up : Int := 0x01
def down : Int := 0x02
def left : Int := 0x03
def right : Int := 0x04
def rightUp : Int := 0x05
def rightDown : Int := 0x06
def leftUp : Int := 0x07
def leftDown : Int := 0x08
def rootMenu : Int := 0x09
def setupMenu : Int := 0x0A
def contentsMenu : Int := 0x0B
def favoriteMenu : Int := 0x0C
def exit : Int := 0x0D
def number0 : Int := 0x20
def number1 : Int := 0x21
def number2 : Int := 0x22
def number3 : Int := 0x23
def number4 : Int := 0x24
def number5 : Int := 0x25
def number6 : Int := 0x26
def number7 : Int := 0x27
def number8 : Int := 0x28
def number9 : Int := 0x29
def dot : Int := 0x2A
def enter : Int := 0x2B
def clear : Int := 0x2C
def nextFavorite : Int := 0x2F
def channelUp : Int := 0x30
def channelDown : Int := 0x31
def previousChannel : Int := 0x32
def soundSelect : Int := 0x33
def inputSelect : Int := 0x34
def displayInformation : Int := 0x35
def help : Int := 0x36
def pageUp : Int := 0x37
def pageDown : Int := 0x38
def power : Int := 0x40
def volumeUp : Int := 0x41
def volumeDown : Int := 0x42
def mute : Int := 0x43
def play : Int := 0x44
def stop : Int := 0x45
def pause : Int := 0x46
def record : Int := 0x47
def rewind : Int := 0x48
def fastForward : Int := 0x49
def eject : Int := 0x4A
def forward : Int := 0x4B
def backward : Int := 0x4C
def stopRecord : Int := 0x4D
def pauseRecord : Int := 0x4E
def angle : Int := 0x50
def subPicture : Int := 0x51
def videoOnDemand : Int := 0x52
def electronicProgramGuide : Int := 0x53
def timerProgramming : Int := 0x54
def initialConfiguration : Int := 0x55
def playFunction : Int := 0x60
def pausePlayFunction : Int := 0x61
def recordFunction : Int := 0x62
def pauseRecordFunction : Int := 0x63
def stopFunction : Int := 0x64
def muteFunction : Int := 0x65
def restoreVolumeFunction : Int := 0x66
def tuneFunction : Int := 0x67
def selectMediaFunction : Int := 0x68
def selectAvInputFunction : Int := 0x69
def selectAudioInputFunction : Int := 0x6A
def powerToggleFunction : Int := 0x6B
def powerOffFunction : Int := 0x6C
def powerOnFunction : Int := 0x6D
def f1Blue : Int := 0x71
def f2Red : Int := 0x72
def f3Green : Int := 0x73
def f4Yellow : Int := 0x74
def f5 : Int := 0x75
def data : Int := 0x76
def anReturn : Int := 0x91
def anChannelsList : Int := 0x96
def max : Int := 0x96
def unknown : Int := 0xFF

end UserControlCode

/-- `cec_keypress`: the key and how long it was held, in milliseconds. -/
structure Keypress where
  keycode : Int
  duration : Nat
  deriving DecidableEq, Repr

/-- The opcodes `Main::onCecCommand` switches on, and all the others. -/
inductive Opcode where
  | standby
  | requestActiveSource
  | setMenuLanguage
  | deckControl
  | play
  | userControlPressed
  | vendorRemoteButtonUp
  | other (code : Nat)
  deriving DecidableEq, Repr

structure CecCommand where
  opcode : Opcode
  parameters : List Nat
  deriving DecidableEq, Repr

/-- `cec_datapacket::operator[]`, which reads 0 beyond the packet's size. -/
def CecCommand.parameter (c : CecCommand) (pos : Nat) : Nat := c.parameters.getD pos 0

def deckControlModeStop : Nat := 0x03
def playModePlayForward : Nat := 0x24
def playModePlayStill : Nat := 0x25

inductive Alert where
  | serviceDevice
  | connectionLost
  | permissionError
  | portBusy
  | physicalAddressError
  | tvPollFailed
  | other (code : Nat)
  deriving DecidableEq, Repr

/-- `CECDEVICE_UNKNOWN`; logical addresses too are kept as integers. -/
def cecDeviceUnknown : Int := -1
def cecDeviceTv : Int := 0
def cecDeviceAudioSystem : Int := 5

end Ceclircd
