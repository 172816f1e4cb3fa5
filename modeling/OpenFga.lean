import OpenFga.Cache.Acknowledged
import OpenFga.Cache.Staleness
import OpenFga.Cache.Suspension
import OpenFga.Cache.TupleReadKey
import OpenFga.Check.Accounts
import OpenFga.Check.BatchCached
import OpenFga.Check.Strata
import OpenFga.Coalescing.Sharing
import OpenFga.Condition.Budget
import OpenFga.Dynamo.Feed
import OpenFga.Dynamo.Pages
import OpenFga.Dynamo.Reverse
import OpenFga.Dynamo.Torn
import OpenFga.List.SetExpression
import OpenFga.List.UsersAgreement
import OpenFga.Memory.Pages
import OpenFga.Service.Tuple
import OpenFga.Storage.Identifiers
import OpenFga.Transport.Admission
