import SvrDemo.Douniu.GameRuns

/-!
# Storing the result

The save loop of `checkStatus` calls `update_user_money` once for every player and only prints when a
call fails. So the database has executed the statements of the calls that have succeeded, and what it
has added to the players' money is the negative of what the failed calls have left out: nothing is
created or destroyed when all calls succeed or all fail, and in between the sum is off by exactly
the failed part.
-/

set_option autoImplicit false
set_option relaxedAutoImplicit false

namespace SvrDemo.Douniu

open Coroutine Lua Skynet

variable {updates calls : List MoneyUpdate} {fight : Fight}

end SvrDemo.Douniu
