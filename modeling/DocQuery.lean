import DocQuery.Proofs.Chain.Text
import DocQuery.Proofs.Connection.Names
import DocQuery.Proofs.Connection.Spelling
import DocQuery.Proofs.Documents
import DocQuery.Proofs.Pending
import DocQuery.Proofs.Program.Acceptance
import DocQuery.Proofs.Program.Agreement
import DocQuery.Proofs.Program.Limits
import DocQuery.Proofs.Program.RoundTrip
import DocQuery.Proofs.Program.Validity
import DocQuery.Proofs.Query
import DocQuery.Proofs.Request.Identity
import DocQuery.Proofs.Session.Bodies
import DocQuery.Proofs.Session.Events
import DocQuery.Proofs.Session.Server
