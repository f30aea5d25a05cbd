import Vlog.Guest.Oracle
import Vlog.Guest.Scenarios

/-!
# One check of the test suite (`run_oracle` in `tests/run_tests.sh`)

The guest runs over the oracle's blob. Its exit code, its transcript and the log file are compared with
what the oracle wrote.
-/

namespace Vlog.Guest

open Vlog.Lib Vlog.Libc Vlog.Device

/-- `vmm_create`, the guest's image in `ram`, and `vmm_load_bootinfo`. -/
def boot (d : MmioDevice) (ram : Memory) (blob : List Byte) : Machine d :=
  { dev := d.init, mem := ram.store bootinfoBase.toNat blob, out := [] }

def Passes (d : MmioDevice) (frame : Frame) (ram : Memory) (o : Output) : Prop :=
  let halted := (agGuest frame bootinfoBase).run (boot d ram o.blob)
  halted.1 = 0 ∧ halted.2.out = o.obs ∧ ∀ log ∈ o.log, d.log halted.2.dev = log

end Vlog.Guest
