import BondTrading.Library.Runs
import BondTrading.Library.Observers
import BondTrading.Library.Text
import BondTrading.Library.Columns
import BondTrading.Library.Tables
import BondTrading.Library.Files
import BondTrading.Library.Parts
import BondTrading.Library.Scripts
import BondTrading.Products
import BondTrading.PriceText
import BondTrading.PriceGrammar
import BondTrading.TradeBooking
import BondTrading.TradeFiles
import BondTrading.Position
import BondTrading.Risk
import BondTrading.MarketData
import BondTrading.Execution
import BondTrading.Pricing
import BondTrading.Inquiry
import BondTrading.Listeners
import BondTrading.InquiryRuns
import BondTrading.InquiryFiles
import BondTrading.Historical
import BondTrading.ReportText
import BondTrading.Desk
import BondTrading.PriceFiles
import BondTrading.Accounts
import BondTrading.Messages
import BondTrading.History
import BondTrading.Routing
import BondTrading.Reports
import BondTrading.Ledger
import BondTrading.EndToEnd
import BondTrading.AnyInput
import BondTrading.Reruns
import BondTrading.Uninitialised
import BondTrading.Exposure
import BondTrading.ReportFiles
