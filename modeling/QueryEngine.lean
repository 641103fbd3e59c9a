import QueryEngine.Form.Calls
import QueryEngine.Form.Plans
import QueryEngine.Machine.Snippet
import QueryEngine.Main
import QueryEngine.Proofs.Plan.Verification
import QueryEngine.Proofs.Script.Functions
import QueryEngine.Proofs.Storage.Roundtrips
import QueryEngine.Proofs.Memory.Building
import QueryEngine.Proofs.Query.Groups
import QueryEngine.Proofs.Tuple.Contents
import QueryEngine.Proofs.Tuple.Roundtrips
import QueryEngine.Proofs.Expression.Literals
import QueryEngine.Proofs.Query.Scans
import QueryEngine.Proofs.Query.Inserts
import QueryEngine.Proofs.Datum.DateTexts
import QueryEngine.Proofs.Datum.Decimals
import QueryEngine.Proofs.Datum.TypeTexts
import QueryEngine.Proofs.Tuple.Mixing
import QueryEngine.Proofs.Tuple.Geometry
import QueryEngine.Proofs.Storage.Loads
