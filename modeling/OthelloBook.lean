import OthelloBook.Board.Mask
import OthelloBook.Board.Square
import OthelloBook.Cache
import OthelloBook.Engine.Basic
import OthelloBook.Engine.Process
import OthelloBook.Engine.Rehearsal
import OthelloBook.Engine.Table
import OthelloBook.Error
import OthelloBook.Evaluation
import OthelloBook.Files.System
import OthelloBook.Files.Tree
import OthelloBook.Json.Draft
import OthelloBook.Json.Number
import OthelloBook.Json.Value
import OthelloBook.Level
import OthelloBook.Main
import OthelloBook.Position.Basic
import OthelloBook.Position.Play
import OthelloBook.Position.Reader
import OthelloBook.Proofs.Board.Captures
import OthelloBook.Proofs.Board.Geometry
import OthelloBook.Proofs.Board.Iteration
import OthelloBook.Proofs.Board.Mobility
import OthelloBook.Proofs.Board.Sets
import OthelloBook.Proofs.Board.Symmetries
import OthelloBook.Proofs.Cache.Additions
import OthelloBook.Proofs.Cache.Children
import OthelloBook.Proofs.Cache.History
import OthelloBook.Proofs.Engine.Evaluate
import OthelloBook.Proofs.Engine.Rows
import OthelloBook.Proofs.Engine.Sessions
import OthelloBook.Proofs.Engine.Tables
import OthelloBook.Proofs.Evaluation
import OthelloBook.Proofs.Evaluation.Bytes
import OthelloBook.Proofs.Evaluation.Sources
import OthelloBook.Proofs.Perft
import OthelloBook.Proofs.Position.Boards
import OthelloBook.Proofs.Position.Bytes
import OthelloBook.Proofs.Position.Canonical
import OthelloBook.Proofs.Position.Equivariance
import OthelloBook.Proofs.Position.LegalMoves
import OthelloBook.Proofs.Position.Placements
import OthelloBook.Proofs.Position.Texts
import OthelloBook.Proofs.Scheduler.Agenda
import OthelloBook.Proofs.Scheduler.Consistency
import OthelloBook.Proofs.Scheduler.Coverage
import OthelloBook.Proofs.Scheduler.Diligence
import OthelloBook.Proofs.Scheduler.FailedReads
import OthelloBook.Proofs.Scheduler.FailedSaves
import OthelloBook.Proofs.Scheduler.Jobs
import OthelloBook.Proofs.Scheduler.Pruning
import OthelloBook.Proofs.Scheduler.Requests
import OthelloBook.Proofs.Scheduler.Rewinds
import OthelloBook.Proofs.Scheduler.Status
import OthelloBook.Proofs.Seed
import OthelloBook.Proofs.Seed.Filling
import OthelloBook.Proofs.Service.Refusals
import OthelloBook.Proofs.Store.Finished
import OthelloBook.Proofs.Store.Mirror
import OthelloBook.Proofs.Store.Races
import OthelloBook.Proofs.Store.Rows
import OthelloBook.Proofs.Store.Saves
import OthelloBook.Proofs.Store.Worklist
import OthelloBook.Proofs.Store.Writers
import OthelloBook.Proofs.Symmetry
import OthelloBook.Proofs.Text.Words
import OthelloBook.Proofs.Wire.Messages
import OthelloBook.Proofs.Worker.Identities
import OthelloBook.Report
import OthelloBook.Scheduler.Assignment
import OthelloBook.Scheduler.Basic
import OthelloBook.Seed
import OthelloBook.Service.Access
import OthelloBook.Service.Basic
import OthelloBook.Service.Request
import OthelloBook.Service.Routes
import OthelloBook.Settings.Commands
import OthelloBook.Settings.Flags
import OthelloBook.Settings.SocketAddress
import OthelloBook.Store.Address
import OthelloBook.Store.Basic
import OthelloBook.Store.Opening
import OthelloBook.Store.Query
import OthelloBook.Symmetry
import OthelloBook.Text.Numeral
import OthelloBook.Text.Quoted
import OthelloBook.Text.Words
import OthelloBook.Wire.Decode
import OthelloBook.Wire.Message
import OthelloBook.Wire.Record
import OthelloBook.Worker.Access
import OthelloBook.Worker.Basic
import OthelloBook.Worker.Rehearsal
