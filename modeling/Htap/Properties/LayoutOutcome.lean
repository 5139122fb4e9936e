import Htap.Executor.PairTable
import Htap.Executor.SkippingSelect
import Htap.Properties.Limit

/-!
What of the outcome of a plain SELECT does not depend on where the rows are. Rows in blocks that
are skipped are not evaluated, and so cannot raise an error that they raise in memory.
-/

namespace Htap.Properties

open Storage SSTable Read Cursor Words Executor Htap.Tree Htap.Tree.Session Htap.Parser

variable {tables tables' : Bytes → Option LSMTree} {start s start' s' : Session}
  {source : SelectStatement} {statement : BoundSelectStatement} {rows rows' : List Row}

end Htap.Properties
