import Mathlib

/-!
# The register ABI of the logging device (`emulator/device.h`, `emulator/device.c`, `guest/vlog.h`)

The constants that the device and the guest library share, the state of the device with the helpers
that are provided for it, and the guest library's reading of STATUS.
-/

namespace Vlog.Device

/-! ## Constants -/

def ramBase : Nat := 0x00100000
def ramSize : Nat := 16 * 1024 * 1024

def regId : Nat := 0x00
def regVersion : Nat := 0x04
def regStatus : Nat := 0x08
def regCmd : Nat := 0x0C
def regMsgLo : Nat := 0x10
def regMsgHi : Nat := 0x14
def regLen : Nat := 0x18
def regLevel : Nat := 0x1C
def regSeq : Nat := 0x20

def vlogMagic : UInt32 := 0x31474C56
def vlogVersion : UInt32 := 1
def vlogMaxMsg : UInt32 := 4096

def cmdNop : UInt32 := 0
def cmdLog : UInt32 := 1
def cmdFlush : UInt32 := 2
def cmdStat : UInt32 := 3

def lvlInfo : UInt32 := 1

def errNone : UInt8 := 0
def errBadCmd : UInt8 := 1
def errBadAddr : UInt8 := 2
def errBadLen : UInt8 := 3

def statusReady : UInt32 := (1 : UInt32) <<< 0
def statusError : UInt32 := (1 : UInt32) <<< 2
def statusErrShift : UInt32 := 8

/-! ## The state of the device -/

/-- `struct vlog_device` without its reference to the VMM. -/
structure VlogDevice where
  status : UInt32
  msgAddrLo : UInt32
  msgAddrHi : UInt32
  len : UInt32
  level : UInt32
  seq : UInt32
  bytes : UInt32
  deriving DecidableEq

def vlogDeviceInit : VlogDevice :=
  { status := statusReady, msgAddrLo := 0, msgAddrHi := 0, len := 0, level := lvlInfo, seq := 0
    bytes := 0 }

def msgAddr (dev : VlogDevice) : UInt64 :=
  dev.msgAddrLo.toUInt64 ||| (dev.msgAddrHi.toUInt64 <<< 32)

def setError (dev : VlogDevice) (code : UInt32) : VlogDevice :=
  { dev with status := dev.status ||| (statusError ||| (code <<< statusErrShift)) }

def clearError (dev : VlogDevice) : VlogDevice :=
  { dev with status := dev.status &&& ~~~(statusError ||| ((0xff : UInt32) <<< statusErrShift)) }

/-! ## STATUS as the guest library reads it -/

/-- `if (st & VLOG_STATUS_ERROR) return (int)((st >> 8) & 0xff); return 0;` -/
def statusResult (st : UInt32) : UInt32 :=
  if st &&& statusError ≠ 0 then (st >>> 8) &&& 0xff else 0

/-! ## Sequences of helper calls -/

/-- A call of a helper, with a code between 0 and 255. -/
inductive HelperCall
  | setError (code : UInt8)
  | clearError

def HelperCall.apply (dev : VlogDevice) : HelperCall → VlogDevice
  | .setError code => Device.setError dev code.toUInt32
  | .clearError => Device.clearError dev

def afterCalls (calls : List HelperCall) : VlogDevice := calls.foldl HelperCall.apply vlogDeviceInit

/-- The codes set since the last `clear_error`. -/
def codesSinceClear (calls : List HelperCall) : List UInt8 :=
  calls.foldl (fun codes call => match call with | .setError code => codes ++ [code] | .clearError => [])
    []

/-- The code of the last call, and 0 where that is no `set_error`. -/
def lastCode (calls : List HelperCall) : UInt8 :=
  match calls.getLast? with
  | some (.setError code) => code
  | _ => 0

/-- STATUS as the last call alone decides it. -/
def reportedStatus (calls : List HelperCall) : UInt32 :=
  match calls.getLast? with
  | some (.setError code) => statusReady ||| statusError ||| (code.toUInt32 <<< statusErrShift)
  | _ => statusReady

end Vlog.Device
