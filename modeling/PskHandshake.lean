import PskHandshake.Exchange
import PskHandshake.Sample
import PskHandshake.Proofs.LetterCase
import PskHandshake.Proofs.Address.Grammar
import PskHandshake.Proofs.Address.RoundTrip
import PskHandshake.Proofs.Sni.HostName
import PskHandshake.Proofs.Sni.Entry
import PskHandshake.Proofs.Sni.Accepted
import PskHandshake.Proofs.Sni.Format
import PskHandshake.Proofs.Sni.Run
import PskHandshake.Proofs.Sni.RoundTrip
import PskHandshake.Proofs.Sni.Legal
import PskHandshake.Proofs.Sni.NormalForm
import PskHandshake.Proofs.Exchange.IdentityField
import PskHandshake.Proofs.Exchange.Run
import PskHandshake.Proofs.Exchange.Agreement
import PskHandshake.Proofs.Exchange.Premaster
import PskHandshake.Proofs.Exchange.Ending
import PskHandshake.Proofs.Config
import PskHandshake.Proofs.Exchange.Limit
import PskHandshake.Proofs.Exchange.Secrecy
import PskHandshake.Proofs.Store.History
import PskHandshake.Proofs.Store.LastChange
import PskHandshake.Proofs.Exchange.Isolation
import PskHandshake.Proofs.Exchange.Log
import PskHandshake.Proofs.PrincipalName
import PskHandshake.Proofs.Diagnostic
import PskHandshake.Proofs.Sni.FirstDefect
import PskHandshake.Proofs.Sni.Safety
import PskHandshake.Proofs.Sni.SingleHost
import PskHandshake.Proofs.Sample
