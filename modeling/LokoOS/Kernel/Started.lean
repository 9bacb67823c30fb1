import LokoOS.Kernel.Delivery

/-!
# What becomes of a boot

`boot/loko-boot/src/main.rs:99–277` followed by `kernel/loko-kernel/src/main.rs:80–267`. The
kernel runs on the stack that it was given and reads what was written for it, both through the
window. Where these and its heap are mapped nothing faults, and the memory map alone decides
how the kernel ends.
-/

namespace LokoOS.Kernel
open LokoOS.Base LokoOS.BootProtocol LokoOS.Memory LokoOS.Boot FrameAllocator

variable {fw : Firmware} {m m' : Memory} {handoff : Handoff} {p : Boot.Prepared}
  {map : List MemoryDescriptor} {bitmap : List (BitVec 64)}

/-- The large machine's maps agree on what is installed. -/
theorem covered_largeMap : Covered largeMap largeMap :=
  fun d hd hty _ hc ↦ ⟨d, hd, by rw [hty]; rfl, hc⟩

end LokoOS.Kernel
