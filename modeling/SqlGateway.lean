import SqlGateway.Naming
import SqlGateway.Report
import SqlGateway.Store.Address
import SqlGateway.Proofs.Value.Compare
import SqlGateway.Proofs.Sql.JoinLayout
import SqlGateway.Proofs.Sql.Distinct
import SqlGateway.Proofs.Sql.Where.Tree
import SqlGateway.Proofs.Plan.Quoted
import SqlGateway.Proofs.Sql.Where.Names
import SqlGateway.Proofs.Shell.Command
import SqlGateway.Proofs.Plan.Null
import SqlGateway.Proofs.Plan.Spelling
import SqlGateway.Proofs.Plan.Tally
import SqlGateway.Proofs.Plan.Shown
import SqlGateway.Proofs.Plan.Sides
import SqlGateway.Proofs.Http.CodeHistory
import SqlGateway.Proofs.Http.Selection
import SqlGateway.Proofs.Http.Secrecy
import SqlGateway.Proofs.Sql.Where.Descent
import SqlGateway.Proofs.Sql.Where.Composition
import SqlGateway.Proofs.Sql.Where.Membership
import SqlGateway.Proofs.Plan.Session
import SqlGateway.Proofs.Plan.Inserted
import SqlGateway.Proofs.Plan.Lookups
import SqlGateway.Proofs.Sql.Where.Like
import SqlGateway.Proofs.Store.Attempts
import SqlGateway.Proofs.Sql.Schema
import SqlGateway.Proofs.Store.Result
import SqlGateway.Proofs.Sql.SortKeys
import SqlGateway.Proofs.Http.Administration
