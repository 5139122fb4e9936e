import Htap.Executor.Consistent
import Htap.Executor.Star
import Htap.Properties.SelectOverTable

/-!
`SELECT *` under the three values of a condition. What the key is compared with decides whether
the first of the three statements can be planned, and a literal NaN whether blocks are skipped
whose rows it is true on.
-/

namespace Htap.Properties

open Storage SSTable Read Cursor Words Executor Htap.Tree Htap.Tree.Session Htap.Parser

variable {tables : Bytes → Option LSMTree} {tableName : Bytes} {start s : Session}
  {statement : BoundSelectStatement} {std : StdSort Exception} {fuel : Nat}

end Htap.Properties
