import SatMemo.Bdd.Basic
import SatMemo.Bdd.Decider
import SatMemo.Bdd.Edge
import SatMemo.Bdd.Ite
import SatMemo.Cnf.Basic
import SatMemo.Cnf.Branching
import SatMemo.Cnf.Consequence
import SatMemo.Cnf.Decider
import SatMemo.Cnf.Learning.Assignment
import SatMemo.Cnf.Learning.Basic
import SatMemo.Cnf.Solver
import SatMemo.Decider.Failing
import SatMemo.Error
import SatMemo.Event
import SatMemo.Explore.Paths
import SatMemo.Explore.Options
import SatMemo.Explore.Report
import SatMemo.Library.Aig
import SatMemo.Library.Basic
import SatMemo.Library.Nary
import SatMemo.Library.Signal
import SatMemo.Library.Term
import SatMemo.Library.Tree
import SatMemo.Main
import SatMemo.Node
import SatMemo.Oracle.Basic
import SatMemo.Oracle.Build
import SatMemo.Oracle.ClassMap
import SatMemo.Oracle.Decide
import SatMemo.Oracle.Engine
import SatMemo.Settings
import SatMemo.Store.Arena
import SatMemo.Store.Memo
import SatMemo.Store.Slots
import SatMemo.Text.Quoted
import SatMemo.Word.Hash
import SatMemo.Word.Generator
import SatMemo.Worklist
import SatMemo.Proofs.Bdd.Formed
import SatMemo.Proofs.Bdd.Recursion
import SatMemo.Proofs.Bdd.Denotation
import SatMemo.Proofs.Bdd.Ite
import SatMemo.Proofs.Bdd.Connectives
import SatMemo.Proofs.Bdd.Canonical
import SatMemo.Proofs.Bdd.History
import SatMemo.Proofs.Bdd.Recompute
import SatMemo.Proofs.Bdd.Twins
import SatMemo.Proofs.Cnf.Gates
import SatMemo.Proofs.Decider.Talk
import SatMemo.Proofs.Cnf.Encoder
import SatMemo.Proofs.Cnf.Exact
import SatMemo.Proofs.Bdd.Exact
import SatMemo.Proofs.Oracle.Run
import SatMemo.Proofs.Oracle.Calls
import SatMemo.Proofs.Oracle.Recorder
import SatMemo.Proofs.Oracle.Verdicts
import SatMemo.Proofs.Library.Lawful
import SatMemo.Proofs.Library.Orderly
import SatMemo.Proofs.Library.Nary
import SatMemo.Proofs.Library.Aig
import SatMemo.Proofs.Library.Simulation
import SatMemo.Proofs.Library.Making
import SatMemo.Proofs.Library.Gates
import SatMemo.Proofs.Library.Repeating
import SatMemo.Proofs.Library.Construction
import SatMemo.Proofs.Library.Labels
import SatMemo.Proofs.Library.Unfolding
import SatMemo.Proofs.Library.Identity
import SatMemo.Proofs.Library.Discrete
import SatMemo.Proofs.Oracle.Filed
import SatMemo.Proofs.Oracle.Lowering
import SatMemo.Proofs.Oracle.Shelving
import SatMemo.Proofs.Oracle.Catalogue
import SatMemo.Proofs.Oracle.Replaying
import SatMemo.Proofs.Oracle.Visiting
import SatMemo.Proofs.Oracle.Classes
import SatMemo.Proofs.Oracle.Faithful
import SatMemo.Proofs.Oracle.Building
import SatMemo.Proofs.Oracle.Deciding
import SatMemo.Proofs.Oracle.Scripts
import SatMemo.Proofs.Oracle.Exactness
import SatMemo.Proofs.Oracle.Settling
import SatMemo.Proofs.Oracle.Inquiry
import SatMemo.Proofs.Oracle.Accounting
import SatMemo.Proofs.Oracle.Statistics
import SatMemo.Proofs.Oracle.Lasting
import SatMemo.Proofs.Oracle.Answering
import SatMemo.Proofs.Oracle.Failing
import SatMemo.Proofs.Oracle.Enduring
import SatMemo.Proofs.Oracle.Unconstrained
import SatMemo.Proofs.Oracle.Foreign
import SatMemo.Proofs.Oracle.Sharing
import SatMemo.Proofs.Oracle.Vetted
import SatMemo.Proofs.Oracle.Attempting
import SatMemo.Proofs.Oracle.Refusing
import SatMemo.Proofs.Library.Source
import SatMemo.Proofs.Oracle.Precheck
import SatMemo.Proofs.Explore.Explorer
import SatMemo.Proofs.Store.Numbering
import SatMemo.Proofs.Bdd.Selecting
import SatMemo.Proofs.Oracle.Postorder
import SatMemo.Proofs.Library.Naming
import SatMemo.Proofs.Library.Lanes
import SatMemo.Proofs.Oracle.Fresh
import SatMemo.Proofs.Bdd.Loop
import SatMemo.Proofs.Bdd.Turns
import SatMemo.Proofs.Cnf.Sharing
import SatMemo.Proofs.Library.Spelling
import SatMemo.Proofs.Library.Legible
import SatMemo.Proofs.Oracle.Display
import SatMemo.Proofs.Store.Recall
import SatMemo.Proofs.Search
import SatMemo.Proofs.Word.Pairing
import SatMemo.Proofs.Bdd.Size
