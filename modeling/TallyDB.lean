import TallyDB.ArrowLite.Interchange
import TallyDB.QueryLite.Clauses
import TallyDB.QueryLite.Distinct
import TallyDB.QueryLite.Like
import TallyDB.QueryLite.OrderingKey
import TallyDB.StorageLite.Accounting
import TallyDB.StorageLite.Files
import TallyDB.StorageLite.Rejection
import TallyDB.StorageLite.Tombstone
import TallyDB.Table.Multifactor
import TallyDB.Table.Written
import TallyDB.View.Union
